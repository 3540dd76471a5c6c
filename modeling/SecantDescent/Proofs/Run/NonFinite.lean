import SecantDescent.Proofs.Float.Extended
import SecantDescent.Proofs.Run.Budget
import SecantDescent.Proofs.Run.Pairs
import SecantDescent.Proofs.Run.Policies

/-!
# Answers that are not finite

A run checks the gradients and the Hessians that it works with, and leaves those
of a secant pair to the rule, which takes what is not finite for degenerate.
Callables that are functions answer the second gradient of a pair twice: once for
the rule, and once more for the run, which checks it.  So no gradient or Hessian
that is not finite gets past a run then, unless the rule has refused the pair
before.  The value of the objective is not looked at.
-/

namespace SecantDescent

open Eval

variable {σ α : Type} [Scalar α] {n : Nat}

/-- Some answer had the right shape and was not finite. -/
def HasNonFinite (n : Nat) (lines : Transcript α) : Prop :=
  ∃ line ∈ lines, ∃ quantity, line.NonFinite n quantity

namespace Objective

/-- The gradient at a point has the right size and is not finite. -/
def NonFiniteGradientAt (f : Objective σ α) (x : Vector α n) : Prop :=
  ∃ g, f.Replies x.toArray (.ok g) ∧ g.size = n ∧ Scalar.allFinite g.toList = false

/-- The gradient at a point is this one, and it is finite. -/
structure FiniteGradientAt (f : Objective σ α) (x g : Vector α n) : Prop where
  finite : Scalar.allFinite g.toList = true
  replies : f.Replies x.toArray (.ok g.toArray)

omit [Scalar α] in
theorem Memoryless.replies_unique {f : Objective σ α} (hf : f.Memoryless) {x : Array α}
    {answer answer' : Except (Failure α) (Array α)} (h : f.Replies x answer)
    (h' : f.Replies x answer') : answer = answer' := by
  obtain ⟨state, rfl⟩ := h
  obtain ⟨state', rfl⟩ := h'
  exact hf.gradient x state state'

end Objective

namespace Solver

/-- The failures that an answer which is not finite can lead to. -/
inductive NonFiniteFailure (method : Option (SecantRule × Safeguard α)) : Failure α → Prop
  | nonFinite (quantity k) : NonFiniteFailure method (.nonFiniteValue quantity k)
  | degenerate {rule safeguard} (quantity value) (ruled : method = some (rule, safeguard))
      (strict : safeguard.policy = .error) :
      NonFiniteFailure method (.degenerateUpdate rule.name quantity value)

variable {f : Objective σ α} {method : Option (SecantRule × Safeguard α)} {stepLength : α}
variable {lines : Transcript α} {line : Exchange α} {failure : Failure α}

/-- If there was an answer that is not finite, it accounts for the failure. -/
def ExplainsNonFinite (method : Option (SecantRule × Safeguard α)) (n : Nat)
    (failure : Failure α) (lines : Transcript α) : Prop :=
  HasNonFinite n lines → NonFiniteFailure method failure

/-- The gradient of the iterate is that of its point, and its matrix is usable. -/
structure FiniteIterate (f : Objective σ α) (iterate : Iterate α n) : Prop where
  gradient : f.FiniteGradientAt iterate.point iterate.gradient
  hessian : iterate.hessian.FiniteSquare n

theorem hasNonFinite_append : HasNonFinite n (lines ++ [line]) ↔
    HasNonFinite n lines ∨ ∃ quantity, line.NonFinite n quantity := by
  simp only [HasNonFinite, List.mem_append, List.mem_singleton]
  constructor
  · rintro ⟨line', hline | rfl, hnotFinite⟩
    · exact .inl ⟨line', hline, hnotFinite⟩
    · exact .inr hnotFinite
  · rintro (⟨line', hline, hnotFinite⟩ | hnotFinite)
    · exact ⟨line', .inl hline, hnotFinite⟩
    · exact ⟨line, .inr rfl, hnotFinite⟩

section

variable (hf : f.Memoryless)
include hf

theorem gradientAt_explains (x : Vector α n) (k : Nat) :
    Meets transcript (fun lines => HasNonFinite n lines → f.NonFiniteGradientAt x)
      (gradientAt f.transcribed x k)
      (fun g lines => f.FiniteGradientAt x g ∧ ¬ HasNonFinite n lines)
      (ExplainsNonFinite method n) := by
  have hgradient {lines : Transcript α} {answer : Except (Failure α) (Array α)}
      (hreplies : f.Replies x.toArray answer)
      (hlines : After (fun lines => HasNonFinite n lines → f.NonFiniteGradientAt x)
        (.gradient x.toArray answer) lines)
      (hnonFinite : HasNonFinite n lines) :
      ∃ quantity, (Exchange.gradient x.toArray answer).NonFinite n quantity := by
    obtain ⟨earlier, hearlier, rfl⟩ := hlines
    rcases hasNonFinite_append.mp hnonFinite with hbefore | hlast
    · obtain ⟨g, hg, hsize, hnotFinite⟩ := hearlier hbefore
      rw [hf.replies_unique hreplies hg]
      exact ⟨_, .gradient rfl hsize hnotFinite⟩
    · exact hlast
  apply (gradientAt_meets f x k _).mono
  · rintro g lines ⟨⟨hfinite, hreplies⟩, hlines⟩
    refine ⟨⟨hfinite, hreplies⟩, fun hnonFinite => ?_⟩
    obtain ⟨quantity, hnotFinite⟩ := hgradient hreplies hlines hnonFinite
    exact Exchange.not_nonFinite_gradient hfinite hnotFinite
  · rintro failure lines ⟨answer, hreplies, hlines, hstops⟩ hnonFinite
    obtain ⟨quantity, hnotFinite⟩ := hgradient hreplies hlines hnonFinite
    rw [hstops.explains quantity hnotFinite]
    exact .nonFinite quantity k

end

theorem hessianAt_explains (f : Objective σ α) (x : Vector α n) (k : Nat) :
    Meets transcript (fun lines => ¬ HasNonFinite n lines) (hessianAt f.transcribed x k)
      (fun B lines => B.FiniteSquare n ∧ ¬ HasNonFinite n lines)
      (ExplainsNonFinite method n) := by
  apply (hessianAt_meets f x k _).mono
  · rintro B _ ⟨hsquare, lines, hnone, rfl⟩
    refine ⟨hsquare, fun hnonFinite => ?_⟩
    obtain ⟨quantity, hnotFinite⟩ := (hasNonFinite_append.mp hnonFinite).resolve_left hnone
    exact Exchange.not_nonFinite_hessian hsquare.finite hnotFinite
  · rintro failure _ ⟨answer, ⟨lines, hnone, rfl⟩, hstops⟩ hnonFinite
    obtain ⟨quantity, hnotFinite⟩ := (hasNonFinite_append.mp hnonFinite).resolve_left hnone
    rw [hstops.explains quantity hnotFinite]
    exact .nonFinite quantity k

theorem matrixFor_explains (solver : Solver σ α) {iterate : Iterate α n}
    (hsquare : iterate.hessian.FiniteSquare n) :
    Meets transcript (fun lines => ¬ HasNonFinite n lines)
      (solver.transcribed.matrixFor f.transcribed iterate)
      (fun held lines => held.FiniteSquare n ∧ ¬ HasNonFinite n lines)
      (ExplainsNonFinite method n) :=
  .ite (fun _ => hessianAt_explains f _ _) (fun _ => .pure fun _ h => ⟨hsquare, h⟩)

section

variable (hf : f.Memoryless)
include hf

/-- Only the second gradient of a pair can be one that is not finite. -/
theorem between_explains {x g : Vector α n} (hg : f.FiniteGradientAt x g) (x' : Vector α n) :
    Meets Objective.underTally (fun lines => ¬ HasNonFinite n lines)
      (SecantPair.between f.transcribed.counted x.toArray x'.toArray)
      (fun pair lines => (pair.s.size = n ∧ pair.y.size = n) ∧
        (HasNonFinite n lines → f.NonFiniteGradientAt x'))
      (ExplainsNonFinite method n) := by
  have hfirst {answer : Except (Failure α) (Array α)} (hreplies : f.Replies x.toArray answer)
      {lines : Transcript α}
      (hlines :
        After (fun lines => ¬ HasNonFinite n lines) (.gradient x.toArray answer) lines) :
      ¬ HasNonFinite n lines := by
    obtain ⟨earlier, hnone, rfl⟩ := hlines
    intro hnonFinite
    obtain ⟨quantity, hnotFinite⟩ := (hasNonFinite_append.mp hnonFinite).resolve_left hnone
    rw [hf.replies_unique hreplies hg.replies] at hnotFinite
    exact Exchange.not_nonFinite_gradient hg.finite hnotFinite
  apply (between_meets f x x' _).mono
  · rintro pair _ ⟨hsizes, g₀, g', ⟨hreplies, hreplies', -, hsize, -⟩, middle, hmiddle, rfl⟩
    refine ⟨hsizes, fun hnonFinite => ?_⟩
    obtain ⟨quantity, hnotFinite⟩ :=
      (hasNonFinite_append.mp hnonFinite).resolve_left (hfirst hreplies hmiddle)
    cases hnotFinite with
    | gradient named shaped notFinite => exact ⟨g', hreplies', hsize, notFinite⟩
  · rintro failure lines
      (⟨earlier, hnone, rfl⟩ | ⟨g₀, answer, hreplies, hwrong, middle, hmiddle, rfl⟩) hnonFinite
    · obtain ⟨quantity, hnotFinite⟩ := (hasNonFinite_append.mp hnonFinite).resolve_left hnone
      cases hnotFinite
    · obtain ⟨quantity, hnotFinite⟩ :=
        (hasNonFinite_append.mp hnonFinite).resolve_left (hfirst hreplies hmiddle)
      have hsame := Except.ok.inj (hf.replies_unique hreplies hg.replies)
      rw [hnotFinite.failure?_eq_none, hnotFinite.misfit?_eq_none, hsame,
        Exchange.misfit?_gradient g.size_toArray] at hwrong
      simp at hwrong

omit hf in
theorem refresh_explains (rule : SecantRule) (safeguard : Safeguard α) {held : DenseMatrix α}
    (hsquare : held.FiniteSquare n) (x' : Vector α n) (pair : SecantPair α) :
    Meets Objective.underTally
      (fun lines => (pair.s.size = n ∧ pair.y.size = n) ∧
        (HasNonFinite n lines → f.NonFiniteGradientAt x'))
      ((rule.toUpdateRule safeguard : UpdateRule σ α).transcribed.beneath.refresh held pair)
      (fun refresh lines =>
        ((refresh.matrix held).rows = n ∧ (refresh.matrix held).cols = n) ∧
        (HasNonFinite n lines → f.NonFiniteGradientAt x'))
      (ExplainsNonFinite (some (rule, safeguard)) n) := by
  apply Meets.of_fact
  rintro ⟨hs, hy⟩
  apply (((rule.toUpdateRule safeguard).refresh_puts held pair).meets _).with_result.mono
  · rintro refresh _ ⟨⟨state, hresult⟩, lines, hgradient, rfl⟩
    have hresult' : rule.refresh safeguard held pair = .ok refresh := hresult
    refine ⟨SecantRule.shape_of_refresh hsquare.rows hsquare.cols hs hy hresult', ?_⟩
    intro hnonFinite
    exact hgradient ((hasNonFinite_append.mp hnonFinite).resolve_right nofun)
  · rintro failure _ ⟨⟨state, hresult⟩, -⟩ -
    have hresult' : rule.refresh safeguard held pair = .error failure := hresult
    obtain ⟨quantity, value, hstrict, rfl⟩ :=
      SecantRule.degenerate_of_refresh_eq_error hsquare.rows hsquare.cols hs hy hresult'
    exact .degenerate quantity value rfl hstrict

/-- The rule can leave an answer that is not finite to the gradient that is asked
for next, at the same point. -/
theorem matrixAfter_explains {held : DenseMatrix α} (hsquare : held.FiniteSquare n)
    {x g : Vector α n} (hg : f.FiniteGradientAt x g) (x' : Vector α n) (k : Nat) :
    Meets transcript (fun lines => ¬ HasNonFinite n lines)
      ((ofSecant stepLength method).transcribed.matrixAfter f.transcribed held x x' k)
      (fun B lines => B.FiniteSquare n ∧ (HasNonFinite n lines → f.NonFiniteGradientAt x'))
      (ExplainsNonFinite method n) := by
  cases method with
  | none => exact .pure fun _ hnone => ⟨hsquare, fun hnonFinite => absurd hnonFinite hnone⟩
  | some safeguarded =>
      obtain ⟨rule, safeguard⟩ := safeguarded
      have hadvance :=
        (between_explains hf hg x').bind (refresh_explains rule safeguard hsquare x')
      apply hadvance.beneath.bind
      intro refresh
      apply Meets.of_fact
      rintro ⟨hrows, hcols⟩
      refine (adopt_meets rule.name held k refresh fun _ _ _ => .nonFinite _ k).mono ?_
        fun _ _ h => h
      rintro B lines ⟨⟨rfl, hfinite⟩, hgradient⟩
      exact ⟨⟨hrows, hcols, hfinite⟩, hgradient⟩

theorem advance_explains (iterate : Iterate α n) :
    Meets transcript (fun lines => FiniteIterate f iterate ∧ ¬ HasNonFinite n lines)
      ((ofSecant stepLength method).transcribed.advance f.transcribed iterate)
      (fun next lines => FiniteIterate f next ∧ ¬ HasNonFinite n lines)
      (ExplainsNonFinite method n) := by
  apply Meets.of_fact
  intro hiterate
  change Meets (belowLog Objective.underTally) _ _ _ _
  apply advance_meets (matrixFor_explains _ hiterate.hessian)
  · exact fun held => .checked _ fun _ _ h hnonFinite => absurd hnonFinite h.2
  · exact fun _ _ h hnonFinite => absurd hnonFinite h.2
  · exact fun held x => .of_fact fun hsquare =>
      matrixAfter_explains hf hsquare hiterate.gradient x _
  · intro x B
    apply Meets.of_fact
    intro hsquare
    exact (gradientAt_explains hf x _).mono (fun _ _ h => ⟨⟨h.1, hsquare⟩, h.2⟩)
      fun _ _ h => h

theorem run_explains (point : Array α) (stopping : StoppingRule α) :
    Meets transcript (fun lines => ¬ HasNonFinite point.size lines)
      ((ofSecant stepLength method).transcribed.run f.transcribed point stopping)
      (fun _ lines => ¬ HasNonFinite point.size lines)
      (ExplainsNonFinite method point.size) := by
  have hcost (iterate : Iterate α point.size) : Meets transcript
      (fun lines => FiniteIterate f iterate ∧ ¬ HasNonFinite point.size lines)
      (costAt f.transcribed iterate.point) (fun _ lines => ¬ HasNonFinite point.size lines)
      (ExplainsNonFinite method point.size) := by
    apply Meets.of_fact
    intro _
    apply ((f.cost_puts iterate.point.toArray).beneath.meets _).mono
    · rintro value _ ⟨lines, hnone, rfl⟩ hnonFinite
      exact hnone ((hasNonFinite_append.mp hnonFinite).resolve_right nofun)
    · rintro failure _ ⟨lines, hnone, rfl⟩ hnonFinite
      exact absurd ((hasNonFinite_append.mp hnonFinite).resolve_right nofun) hnone
  change Meets (belowLog Objective.underTally) _ _ _ _
  refine run_meets (fun _ _ hnone hnonFinite => absurd hnonFinite hnone) ?_
    (fun iterate => advance_explains hf iterate) hcost
  apply ((gradientAt_explains hf _ _).mono_pre
    fun _ hnone hnonFinite => absurd hnonFinite hnone).bind
  intro gradient
  apply Meets.of_fact
  intro hgradient
  apply (hessianAt_explains f _ _).bind
  intro hessian
  exact .pure fun _ h => ⟨⟨hgradient, h.1⟩, h.2⟩

end

/-- A gradient or a Hessian of the right shape that is not finite is the last
answer of a run, and the run fails with it; only the two gradients of a secant
pair are not checked.  A pair with a gradient that is not finite is degenerate for
the rule, whatever the callables are: the rule keeps the matrix, or it refuses the
pair and the run fails with that.  If the callables are functions, these two
gradients do not get past a run either, but a strict rule can fail with them first.
No report holds a point, a gradient or a matrix that is not finite. -/
theorem non_finite_answer_ends_run [ExtendedSub α] (f : Objective σ α) (stepLength : α)
    (method : Option (SecantRule × Safeguard α)) (point : Array α) (stopping : StoppingRule α)
    (state : σ) :
    let solver : Solver σ α := ofSecant stepLength method
    let run := solver.watched f point stopping state
    run.result = (solver.minimize f point stopping state).result ∧
    (∀ before line after quantity, run.state.1 = before ++ line :: after →
      solver.Checks before line → line.NonFinite point.size quantity →
      after = [] ∧ ∃ k, run.result = .error (.nonFiniteValue quantity k)) ∧
    (∀ before held s y answer after,
      run.state.1 = before ++ .refresh held s y answer :: after →
      ∃ rule safeguard earlier x x' g g', method = some (rule, safeguard) ∧
        before = earlier ++ [.gradient x (.ok g), .gradient x' (.ok g')] ∧
        g.size = point.size ∧ g'.size = point.size ∧ y = g'.zipWith (· - ·) g ∧
        (Scalar.allFinite g.toList = false ∨ Scalar.allFinite g'.toList = false →
          rule.AnswersDegenerate safeguard answer) ∧
        ∀ failure, answer = .error failure → after = [] ∧ run.result = .error failure) ∧
    (f.Memoryless → ∀ line ∈ run.state.1, ∀ quantity, line.NonFinite point.size quantity →
      ∃ failure, run.result = .error failure ∧ NonFiniteFailure method failure) ∧
    ∀ report, run.result = .ok report →
      Scalar.allFinite report.point.toList = true ∧
      Scalar.allFinite report.gradient.toList = true ∧
      report.hessian.FiniteSquare point.size := by
  intro solver run
  have hresult : run.result = (solver.minimize f point stopping state).result :=
    watched_result solver f point stopping state
  refine ⟨hresult, ?_, ?_, ?_, ?_⟩
  · intro before line after quantity hlines hchecks hnotFinite
    have hends := watched_meets (run_endsAtNonFinite solver f point stopping)
      (checkedFinite_nil solver point.size) state
    obtain ⟨failure, hfailure, hstopped⟩ := hends.exists_error fun _ hchecked =>
      hchecked _ _ _ _ hlines hchecks hnotFinite
    obtain ⟨hlast, k, rfl⟩ := hstopped _ _ _ _ hlines hchecks hnotFinite
    exact ⟨hlast, k, hfailure⟩
  · intro before held s y answer after hlines
    have hjudged := watched_judgesPairs f stepLength method point stopping state
    obtain ⟨rule, safeguard, earlier, x, x', g, g', hmethod, hbefore, hg, hg', hchange,
      hanswer⟩ := hjudged _ _ _ _ _ _ hlines
    refine ⟨rule, safeguard, earlier, x, x', g, g', hmethod, hbefore, hg, hg', hchange,
      hanswer, ?_⟩
    rintro failure rfl
    exact watched_last_of_failure solver f point stopping state hlines rfl
  · intro hf line hline quantity hnotFinite
    have hnonFinite : HasNonFinite point.size run.state.1 :=
      ⟨line, hline, quantity, hnotFinite⟩
    have hnil : ¬ HasNonFinite point.size ([] : Transcript α) := by simp [HasNonFinite]
    have hends : Ends (fun _ lines => ¬ HasNonFinite point.size lines)
        (ExplainsNonFinite method point.size) run.result run.state.1 :=
      watched_meets (run_explains hf point stopping) hnil state
    obtain ⟨failure, hfailure, hexplains⟩ := hends.exists_error fun _ hnone =>
      hnone hnonFinite
    exact ⟨failure, hfailure, hexplains hnonFinite⟩
  · intro report hreport
    rw [hresult] at hreport
    obtain ⟨iterate, session, ending, value, after, hfinish, -, rfl⟩ :=
      minimize_eq_ok_iff.mp hreport
    have hsound := sound_of_finish hfinish
    exact ⟨hsound.point, hsound.gradient, hsound.hessian⟩

/-- A function whose gradient is not finite at zero. -/
def pole : Objective Unit Float :=
  .ofFunctions (fun _ => .ok 0) (fun x => .ok (x.map (1 / ·)))
    fun _ => .ok (.ofGrid (Grid.identity 1))

theorem pole_memoryless : pole.Memoryless :=
  Objective.ofFunctions_memoryless _ _ _

theorem pole_ends_run :
    pole.Memoryless ∧
      ∃ line ∈ ((ofSecant 1 (some (.bfgs, ⟨.skip, 0⟩))).watched pole #[1] ⟨0, 3⟩ ()).state.1,
        line.NonFinite 1 "gradient" ∧
        ∃ failure,
          ((ofSecant 1 (some (.bfgs, ⟨.skip, 0⟩))).watched pole #[1] ⟨0, 3⟩ ()).result =
            .error failure ∧
          NonFiniteFailure (some (.bfgs, ⟨.skip, 0⟩)) failure := by
  obtain ⟨line, hline, hnotFinite⟩ : ∃ line ∈
      ((ofSecant 1 (some (.bfgs, ⟨.skip, 0⟩))).watched pole #[1] ⟨0, 3⟩ ()).state.1,
      line.NonFinite 1 "gradient" := by
    decide +kernel
  exact ⟨pole_memoryless, line, hline, hnotFinite,
    (non_finite_answer_ends_run pole 1 (some (.bfgs, ⟨.skip, 0⟩)) #[1] ⟨0, 3⟩ ()).2.2.2.1
      pole_memoryless line hline "gradient" hnotFinite⟩

/-- Callables that count the gradients asked for.  The third one, which is the
second one of the first secant pair, is not a number, and the next one vanishes. -/
def nanOnThirdCall : Objective Nat Float where
  cost _ := .ofExcept (.ok 0)
  gradient _ := .of fun k =>
    (.ok #[if k = 2 then Scalar.notANumber else if k = 3 then 0 else 1], k + 1)
  hessian _ := .ofExcept (.ok (.ofGrid (Grid.identity 1)))

/-- A strict rule fails with the gradient of a pair first, a lenient one lets callables
that change their answers go on to a report, and a value that is not a number is
reported. -/
theorem non_finite_answers_get_past :
    (let run := (ofSecant 1 (some (.bfgs, ⟨.error, 0⟩))).watched pole #[1] ⟨0, 3⟩ ();
      (∃ line ∈ run.state.1, line.NonFinite 1 "gradient") ∧
      ∀ quantity k, run.result ≠ .error (.nonFiniteValue quantity k)) ∧
    (let run := (ofSecant 1 (some (.bfgs, ⟨.skip, 0⟩))).watched nanOnThirdCall #[1] ⟨0, 3⟩ 0;
      (∃ line ∈ run.state.1, line.NonFinite 1 "gradient") ∧
      ∃ report, run.result = .ok report) ∧
    let f : Objective Unit Float :=
      Quadratic.objective { Quadratic.halfSquare 1 with constant := Scalar.notANumber };
    ∃ report, ((ofSecant 1 none).minimize f #[1] ⟨1e-5, 10⟩ ()).result = .ok report ∧
      Scalar.isNaN report.value = true := by
  refine ⟨⟨by decide +kernel, ?_⟩, ⟨by decide +kernel, ?_⟩, ?_⟩
  · have hrefused : failsWith Failure.isDegenerate
        ((ofSecant 1 (some (.bfgs, ⟨.error, 0⟩))).watched pole #[1] ⟨0, 3⟩ ()).result =
          true := by
      decide +kernel
    intro quantity k h
    rw [h] at hrefused
    cases hrefused
  · exact exists_of_isOk (by decide +kernel)
  · exact exists_ok_of_any (by decide +kernel)

end Solver

end SecantDescent
