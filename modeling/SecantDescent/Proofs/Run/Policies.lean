import SecantDescent.Proofs.Run.Failing
import SecantDescent.Proofs.Run.Growth
import SecantDescent.Proofs.Secant.Refresh

/-!
# Runs that refuse and runs that skip

A safeguard refuses a degenerate update or skips it, and that is all its policy
decides.  Of two runs that differ in the policy alone, the one that refuses is
the beginning of the one that skips: they go together until an update is
degenerate, where the first one fails and the second one notes the same
quantity in its log and goes on.
-/

namespace SecantDescent

open Eval

variable {σ α β γ κ : Type}

def Failure.isDegenerate : Failure α → Bool
  | .degenerateUpdate .. => true
  | _ => false

/-- The failures of the computation are not those of a degenerate update. -/
def Eval.NeverDegenerate (act : Eval σ α β) : Prop :=
  ∀ state failure, (act.outcome state).1 = .error failure → failure.isDegenerate = false

/-- The callables have failures of their own only, such as an evaluation that
was given up, and leave degenerate updates to the rule. -/
structure Objective.NeverDegenerate (f : Objective σ α) : Prop where
  cost : ∀ x, (f.cost x).NeverDegenerate
  gradient : ∀ x, (f.gradient x).NeverDegenerate
  hessian : ∀ x, (f.hessian x).NeverDegenerate

/-! ## Computations that part -/

/-- How two computations from one session can end: in the same way, without a
degenerate update, or apart, the second one having gone on from where the first
one failed. -/
inductive Parting (record : σ → List κ) (session : Session σ α) :
    Except (Failure α) β × Session σ α → Except (Failure α) β × Session σ α → Prop
  | together {outcome}
      (fine : ∀ failure, outcome.1 = .error failure → failure.isDegenerate = false)
      (onward : Onward (fun event => event.isSkip = false) record session outcome.2) :
      Parting record session outcome outcome
  | apart {method quantity value after outcome}
      (onward : Onward (fun event => event.isSkip = false) record session after)
      (later : Onward (fun _ => True) record
        (after.1.push (.skippedUpdate method quantity value), after.2) outcome.2) :
      Parting record session (.error (.degenerateUpdate method quantity value), after) outcome

structure Eval.Parts (record : σ → List κ) (strict lenient : Eval (Session σ α) α β) :
    Prop where
  outcome : ∀ session,
    Parting record session (strict.outcome session) (lenient.outcome session)

variable {record : σ → List κ}

theorem Parting.of_onward {session middle : Session σ α}
    {outcome outcome' : Except (Failure α) β × Session σ α}
    (honward : Onward (fun event => event.isSkip = false) record session middle)
    (h : Parting record middle outcome outcome') :
    Parting record session outcome outcome' := by
  cases h with
  | together fine onward => exact .together fine (Trans.trans honward onward)
  | apart onward later => exact .apart (Trans.trans honward onward) later

namespace Eval.Parts

variable {strict lenient : Eval (Session σ α) α β}

theorem refl {act : Eval (Session σ α) α β} (hfine : act.NeverDegenerate)
    (hgoes : Goes (Onward (fun event => event.isSkip = false) record) act) :
    Parts record act act where
  outcome session := .together (hfine session) (hgoes.outcome session)

theorem ofExcept {result : Except (Failure α) β}
    (hfine : ∀ failure, result = .error failure → failure.isDegenerate = false) :
    Parts record (.ofExcept result) (.ofExcept result) :=
  refl (fun _ => hfine) (.ofExcept result)

theorem pure (value : β) :
    Parts record (pure value : Eval (Session σ α) α β) (pure value) :=
  refl nofun (.pure value)

/-- The second computation only goes on as well. -/
theorem goes (h : Parts record strict lenient) :
    Goes (Onward (fun _ => True) record) lenient where
  outcome session := by
    have hparting := h.outcome session
    generalize strict.outcome session = ended at hparting
    generalize lenient.outcome session = ended' at hparting
    cases hparting with
    | together fine onward => exact onward.mono fun _ _ => trivial
    | @apart method quantity value after _ onward later =>
        have hnoted : Onward (fun _ => True) record after
            (after.1.push (.skippedUpdate method quantity value), after.2) :=
          .of_tell trivial _
        have hstrict : Onward (fun _ => True) record session after :=
          onward.mono fun _ _ => trivial
        exact Trans.trans hstrict (Trans.trans hnoted later)

theorem bind {next next' : β → Eval (Session σ α) α γ} (h : Parts record strict lenient)
    (hnext : ∀ value, Parts record (next value) (next' value)) :
    Parts record (strict >>= next) (lenient >>= next') where
  outcome session := by
    have hparting := h.outcome session
    rw [outcome_bind, outcome_bind]
    generalize strict.outcome session = ended at hparting
    generalize lenient.outcome session = ended' at hparting
    cases hparting with
    | together fine onward =>
        rcases ended with ⟨failure | value, middle⟩
        · refine .together ?_ onward
          rintro _ ⟨⟩
          exact fine failure rfl
        · exact ((hnext value).outcome middle).of_onward onward
    | apart onward later =>
        refine .apart onward ?_
        rcases ended' with ⟨failure | value, middle⟩
        · exact later
        · exact Trans.trans later ((hnext value).goes.outcome middle)

theorem ite {condition : Prop} [Decidable condition]
    {strict' lenient' : Eval (Session σ α) α β}
    (h : Parts record strict lenient) (h' : Parts record strict' lenient') :
    Parts record (if condition then strict else strict')
      (if condition then lenient else lenient') := by
  by_cases hcondition : condition
  · rw [if_pos hcondition, if_pos hcondition]
    exact h
  · rw [if_neg hcondition, if_neg hcondition]
    exact h'

end Eval.Parts

/-! ## One refreshment -/

/-- What a rule makes of one pair under the two policies. -/
inductive SecantRule.Verdicts (rule : SecantRule) :
    Except (Failure α) (Refresh α) → Except (Failure α) (Refresh α) → Prop
  | updated (B : DenseMatrix α) : Verdicts rule (.ok (.updated B)) (.ok (.updated B))
  | refused {failure : Failure α} (fine : failure.isDegenerate = false) :
      Verdicts rule (.error failure) (.error failure)
  | degenerate (degeneracy : Degeneracy α) :
      Verdicts rule (.error (.degenerateUpdate rule.name degeneracy.quantity degeneracy.value))
        (.ok (.skipped degeneracy))

variable {n : Nat}

theorem SecantRule.settle_verdicts (rule : SecantRule) (tolerance : α)
    (attempted : Except (Degeneracy α) (Grid α n n)) :
    rule.Verdicts (rule.settle ⟨.error, tolerance⟩ attempted)
      (rule.settle ⟨.skip, tolerance⟩ attempted) := by
  cases attempted with
  | ok B => exact .updated (.ofGrid B)
  | error degeneracy => exact .degenerate degeneracy

variable [Scalar α]

theorem SecantRule.refresh_verdicts (rule : SecantRule) (tolerance : α) (held : DenseMatrix α)
    (pair : SecantPair α) :
    rule.Verdicts (rule.refresh ⟨.error, tolerance⟩ held pair)
      (rule.refresh ⟨.skip, tolerance⟩ held pair) := by
  unfold refresh
  split
  next => exact .refused rfl
  next B _ =>
    simp only
    split
    next degeneracy _ => exact rule.settle_verdicts tolerance (.error degeneracy)
    next =>
      split
      next => exact rule.settle_verdicts tolerance _
      next => exact .refused rfl

/-! ## The parts that both runs have -/

namespace Eval.NeverDegenerate

variable {f : Objective σ α}

omit [Scalar α] in
theorem after {τ : Type} {act : Eval σ α β} (h : act.NeverDegenerate) (change : τ → τ) :
    (act.after change).NeverDegenerate := by
  intro state failure hfailure
  rw [outcome_after] at hfailure
  exact h state.2 failure hfailure

theorem between (hf : f.NeverDegenerate) (point next : Array α) :
    (SecantPair.between f.counted point next).NeverDegenerate := by
  intro state failure hfailure
  rcases SecantPair.between_eq_error (Prod.ext hfailure rfl) with
    ⟨-, rfl⟩ | hgradient | ⟨gradient, middle, -, hnext | ⟨answer, -, ⟨-, rfl⟩ | ⟨-, rfl⟩⟩⟩
  · rfl
  · exact ((hf.gradient point).after _) state failure (congrArg Prod.fst hgradient)
  · exact ((hf.gradient next).after _) middle failure (congrArg Prod.fst hnext)
  · rfl
  · rfl

theorem gradientAt (hf : f.NeverDegenerate) (x : Vector α n) (k : Nat) :
    (Solver.gradientAt f x k).NeverDegenerate := by
  intro state failure hfailure
  rcases Solver.gradientAt_eq_error (Prod.ext hfailure rfl) with
    hgradient | ⟨answer, -, ⟨-, rfl⟩ | ⟨-, -, rfl⟩⟩
  · exact hf.gradient _ _ failure (congrArg Prod.fst hgradient)
  · rfl
  · rfl

theorem hessianAt (hf : f.NeverDegenerate) (x : Vector α n) (k : Nat) :
    (Solver.hessianAt f x k).NeverDegenerate := by
  intro state failure hfailure
  rcases Solver.hessianAt_eq_error (Prod.ext hfailure rfl) with
    hhessian | ⟨answer, -, rfl | ⟨-, -, -, rfl⟩⟩
  · exact hf.hessian _ _ failure (congrArg Prod.fst hhessian)
  · rfl
  · rfl

theorem conclude (hf : f.NeverDegenerate) (stopping : StoppingRule α) (iterate : Iterate α n)
    (ending : Ending) : (Solver.conclude f stopping iterate ending).NeverDegenerate := by
  intro state failure hfailure
  have hcost := Solver.conclude_eq_error_iff.mp (Prod.ext hfailure rfl)
  exact hf.cost _ _ failure (congrArg Prod.fst (Solver.costAt_eq_error hcost))

theorem enter (hf : f.NeverDegenerate) (solver : Solver σ α) (point : Array α)
    (stopping : StoppingRule α) : (solver.enter f point stopping).NeverDegenerate := by
  intro state failure hfailure
  rcases Solver.enter_eq_error (Prod.ext hfailure rfl) with
    hrefused | ⟨opened, hgradient | hhessian⟩
  · obtain ⟨objection, rfl⟩ := Solver.checkArguments_eq_error hrefused
    rfl
  · exact gradientAt hf _ _ opened failure (congrArg Prod.fst hgradient)
  · exact hessianAt hf _ _ opened failure (congrArg Prod.fst hhessian)

theorem direction (B : DenseMatrix α) (g : Vector α n) (k : Nat) :
    ∀ failure, descentDirection B g k = .error failure → failure.isDegenerate = false := by
  intro failure hfailure
  rcases descentDirection_eq_error hfailure with ⟨-, rfl⟩ | rfl
  · rfl
  · rfl

end Eval.NeverDegenerate

/-! ## The two runs -/

namespace Solver

/-- The pair first, then the rule, then the log. -/
theorem matrixAfter_ofSecant (f : Objective σ α) (stepLength : α) (rule : SecantRule)
    (safeguard : Safeguard α) (held : DenseMatrix α) (x x' : Vector α n) (k : Nat) :
    (ofSecant stepLength (some (rule, safeguard))).matrixAfter f held x x' k = (do
      let pair ← (SecantPair.between f.counted x.toArray x'.toArray).beneath
      let refresh ← .ofExcept (rule.refresh safeguard held pair)
      adopt rule.name held k refresh) := by
  funext session
  change Eval.outcome _ session = Eval.outcome _ session
  simp only [SecantRule.toUpdateRule, UpdateRule.advance, UpdateRule.beneath, outcome_bind,
    outcome_beneath, outcome_ofExcept]
  rcases (SecantPair.between f.counted x.toArray x'.toArray).outcome session.2 with
    ⟨failure | pair, below⟩
  · rfl
  · cases rule.refresh safeguard held pair <;> rfl

variable {f : Objective σ α}

section

variable (stepLength : α) (rule : SecantRule) (tolerance : α)

theorem adopt_parts (held : DenseMatrix α) (pair : SecantPair α) (k : Nat) :
    Parts record
      (do adopt rule.name held k (← .ofExcept (rule.refresh ⟨.error, tolerance⟩ held pair)) :
        Eval (Session σ α) α _)
      (do adopt rule.name held k
            (← .ofExcept (rule.refresh ⟨.skip, tolerance⟩ held pair))) where
  outcome session := by
    have hverdicts := rule.refresh_verdicts tolerance held pair
    rw [outcome_bind, outcome_bind, outcome_ofExcept, outcome_ofExcept]
    generalize rule.refresh ⟨.error, tolerance⟩ held pair = strict at hverdicts
    generalize rule.refresh ⟨.skip, tolerance⟩ held pair = lenient at hverdicts
    cases hverdicts with
    | updated B =>
        simp only [outcome_adopt]
        refine .together (fun failure hfailure => ?_) (.of_grown (List.prefix_refl _))
        split at hfailure
        next => cases hfailure
        next =>
          cases hfailure
          rfl
    | refused fine =>
        refine .together ?_ (.of_grown (List.prefix_refl _))
        rintro _ ⟨⟩
        exact fine
    | degenerate degeneracy =>
        simp only [outcome_adopt]
        exact .apart (.of_grown (List.prefix_refl _)) (.of_grown (List.prefix_refl _))

variable (hf : f.NeverDegenerate) (hgrows : f.Grows record)
include hf hgrows

theorem matrixAfter_parts (held : DenseMatrix α) (x x' : Vector α n) (k : Nat) :
    Parts record
      ((ofSecant stepLength (some (rule, ⟨.error, tolerance⟩))).matrixAfter f held x x' k)
      ((ofSecant stepLength (some (rule, ⟨.skip, tolerance⟩))).matrixAfter f held x x' k) := by
  rw [matrixAfter_ofSecant, matrixAfter_ofSecant]
  refine .bind (.refl ?_ (between_goes hgrows.counted.gradient _ _).onward) fun pair => ?_
  · intro session failure hfailure
    exact NeverDegenerate.between hf _ _ session.2 failure hfailure
  · exact adopt_parts rule tolerance held pair k

theorem advance_parts (iterate : Iterate α n) :
    Parts record ((ofSecant stepLength (some (rule, ⟨.error, tolerance⟩))).advance f iterate)
      ((ofSecant stepLength (some (rule, ⟨.skip, tolerance⟩))).advance f iterate) := by
  simp only [advance, ExceptT.bind_throw]
  refine .bind (.pure iterate.hessian) fun held => ?_
  refine .bind (.ofExcept (NeverDegenerate.direction held _ _)) fun direction => ?_
  refine .ite (.ofExcept ?_) ?_
  · rintro _ ⟨⟩
    rfl
  refine (matrixAfter_parts stepLength rule tolerance hf hgrows held _ _ _).bind fun B => ?_
  exact .bind (.refl (NeverDegenerate.gradientAt hf _ _) (gradientAt_goes hgrows _ _))
    fun gradient => .pure _

theorem iterateFrom_parts (stopping : StoppingRule α) (remaining : Nat)
    (iterate : Iterate α n) :
    Parts record
      ((ofSecant stepLength (some (rule, ⟨.error, tolerance⟩))).iterateFrom f stopping
        remaining iterate)
      ((ofSecant stepLength (some (rule, ⟨.skip, tolerance⟩))).iterateFrom f stopping remaining
        iterate) := by
  have hconclude (iterate : Iterate α n) (ending : Ending) :
      Parts record (conclude f stopping iterate ending) (conclude f stopping iterate ending) :=
    .refl (NeverDegenerate.conclude hf stopping iterate ending)
      (conclude_goes hgrows (fun _ h => h) stopping iterate ending)
  induction remaining generalizing iterate with
  | zero => exact hconclude iterate .maxIterations
  | succ remaining ih =>
      refine .bind ?_ fun next => .ite (hconclude next .converged) (ih next)
      refine (advance_parts stepLength rule tolerance hf hgrows iterate).bind fun next => ?_
      exact .bind (.refl nofun (tell_goes rfl)) fun _ => .pure next

theorem run_parts (point : Array α) (stopping : StoppingRule α) :
    Parts record
      ((ofSecant stepLength (some (rule, ⟨.error, tolerance⟩))).run f point stopping)
      ((ofSecant stepLength (some (rule, ⟨.skip, tolerance⟩))).run f point stopping) := by
  refine .bind (.refl (NeverDegenerate.enter hf _ point stopping)
    (enter_goes _ hgrows (fun _ h => h) point stopping)) fun first => .ite ?_ ?_
  · exact .refl (NeverDegenerate.conclude hf _ _ _) (conclude_goes hgrows (fun _ h => h) _ _ _)
  · exact iterateFrom_parts stepLength rule tolerance hf hgrows stopping _ first

end

/-- A run that refuses degenerate updates has skipped none. -/
theorem isSkip_of_refusing {f : Objective σ α} (hf : f.NeverDegenerate) (rule : SecantRule)
    (stepLength tolerance : α) (point : Array α) (stopping : StoppingRule α) (state : σ) :
    ∀ event ∈ ((ofSecant stepLength (some (rule, ⟨.error, tolerance⟩))).minimize f point
      stopping state).log.toList, event.isSkip = false := by
  have hgrows : f.Grows fun _ => ([] : List Unit) := f.grows_nothing
  have hparting := (run_parts stepLength rule tolerance hf hgrows point stopping).outcome
    (#[], {}, state)
  have hlog :
      ((ofSecant stepLength (some (rule, ⟨.error, tolerance⟩))).minimize f point stopping
          state).log =
        (((ofSecant stepLength (some (rule, ⟨.error, tolerance⟩))).run f point
          stopping).outcome (#[], {}, state)).2.1 := rfl
  rw [hlog]
  generalize ((ofSecant stepLength (some (rule, ⟨.error, tolerance⟩))).run f point
    stopping).outcome (#[], {}, state) = ended at hparting
  generalize ((ofSecant stepLength (some (rule, ⟨.skip, tolerance⟩))).run f point
    stopping).outcome (#[], {}, state) = ended' at hparting
  have honward : Onward (fun event => event.isSkip = false) (fun _ => ([] : List Unit))
      (#[], {}, state) ended.2 := by
    cases hparting with
    | together fine onward => exact onward
    | apart onward later => exact onward
  obtain ⟨events, hevents, hkept⟩ := honward.log
  rw [hevents]
  exact hkept

omit [Scalar α] in
theorem traced_neverDegenerate (hf : f.NeverDegenerate) : f.traced.NeverDegenerate where
  cost x := (hf.cost x).after _
  gradient x := (hf.gradient x).after _
  hessian x := (hf.hessian x).after _

/-- Of two runs that differ in the policy alone, both are one run unless the
first one refuses a degenerate update.  If it does, it has made the first calls
and written the first entries of the other one, which then notes the update
that was refused. -/
theorem refusing_run_begins_skipping_run (f : Objective σ α) (hf : f.NeverDegenerate)
    (rule : SecantRule) (stepLength tolerance : α) (point : Array α)
    (stopping : StoppingRule α) (state : σ) :
    let refusing := (ofSecant stepLength (some (rule, ⟨.error, tolerance⟩))).minimize f.traced
      point stopping (#[], state)
    let skipping := (ofSecant stepLength (some (rule, ⟨.skip, tolerance⟩))).minimize f.traced
      point stopping (#[], state)
    ((∀ method quantity value,
        refusing.result ≠ .error (.degenerateUpdate method quantity value)) →
      skipping = refusing ∧ ∀ event ∈ skipping.log.toList, event.isSkip = false) ∧
    (∀ method quantity value,
      refusing.result = .error (.degenerateUpdate method quantity value) →
      refusing.state.1.toList <+: skipping.state.1.toList ∧
      ∃ later, skipping.log.toList =
        refusing.log.toList ++ .skippedUpdate method quantity value :: later) ∧
    ((∀ event ∈ skipping.log.toList, event.isSkip = false) → skipping = refusing) := by
  have hparting := (run_parts stepLength rule tolerance (traced_neverDegenerate hf)
    f.traced_grows point stopping).outcome (#[], {}, (#[], state))
  simp only [minimize]
  generalize ((ofSecant stepLength (some (rule, ⟨.error, tolerance⟩))).run f.traced point
    stopping).outcome (#[], {}, (#[], state)) = ended at hparting
  generalize ((ofSecant stepLength (some (rule, ⟨.skip, tolerance⟩))).run f.traced point
    stopping).outcome (#[], {}, (#[], state)) = ended' at hparting
  cases hparting with
  | together fine onward =>
      refine ⟨fun _ => ⟨rfl, ?_⟩, fun method quantity value h => ?_, fun _ => rfl⟩
      · obtain ⟨events, hevents, hallowed⟩ := onward.log
        rw [hevents]
        exact hallowed
      · cases fine _ h
  | apart onward later =>
      obtain ⟨events, hevents, -⟩ := later.log
      rw [Array.toList_push, List.append_assoc, List.singleton_append] at hevents
      refine ⟨fun h => absurd rfl (h _ _ _), ?_, fun h => ?_⟩
      · rintro _ _ _ ⟨⟩
        exact ⟨later.record, events, hevents⟩
      · rw [hevents] at h
        cases h _ (List.mem_append_right _ (List.mem_cons_self ..))

/-- A linear function, along which the gradient does not change. -/
def sloping : Objective Unit Float :=
  .ofFunctions (fun _ => .ok 0) (fun _ => .ok #[1]) fun _ => .ok (.ofGrid (Grid.identity 1))

theorem sloping_neverDegenerate : sloping.NeverDegenerate :=
  ⟨fun _ => nofun, fun _ => nofun, fun _ => nofun⟩

theorem sloping_refused_and_skipped :
    sloping.NeverDegenerate ∧
      let refusing := (ofSecant 1 (some (.bfgs, ⟨.error, 0⟩))).minimize sloping.traced #[1]
        ⟨0, 3⟩ (#[], ())
      let skipping := (ofSecant 1 (some (.bfgs, ⟨.skip, 0⟩))).minimize sloping.traced #[1]
        ⟨0, 3⟩ (#[], ())
      ∃ method quantity value later,
        refusing.result = .error (.degenerateUpdate method quantity value) ∧
        refusing.state.1.toList <+: skipping.state.1.toList ∧
        skipping.log.toList =
          refusing.log.toList ++ .skippedUpdate method quantity value :: later := by
  refine ⟨sloping_neverDegenerate, ?_⟩
  intro refusing skipping
  obtain ⟨hsame, hboth, -⟩ := refusing_run_begins_skipping_run sloping sloping_neverDegenerate
    .bfgs 1 0 #[1] ⟨0, 3⟩ ()
  have hlogs : skipping.log.size ≠ refusing.log.size := by
    decide +kernel
  refine Classical.byContradiction fun hfine => hlogs ?_
  refine congrArg (Array.size ∘ Outcome.log) (hsame ?_).1
  intro method quantity value hrefused
  obtain ⟨htrace, later, hlog⟩ := hboth method quantity value hrefused
  exact hfine ⟨method, quantity, value, later, hrefused, htrace, hlog⟩

end Solver

end SecantDescent
