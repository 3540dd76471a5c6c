import SecantDescent.Proofs.Run.Transcript

/-!
# The schedule of the calls of a run

A run calls the callables in a fixed order, which depends on their answers only
through the points it comes to.  `Round` lists the calls of one iteration and
`Schedule` those of a run after its first iterate is known.  A run that returns
a report has gone through a whole schedule; a run that fails has got to a point
within one.
-/

namespace SecantDescent

open Eval

variable {σ α : Type} [Scalar α] {n : Nat}

namespace Solver

/-- The descent direction at an iterate, or the zero vector where the matrix
held does not give one. -/
def heading (held : DenseMatrix α) (iterate : Iterate α n) : Vector α n :=
  (descentDirection held iterate.gradient (iterate.count + 1)).toOption.getD
    (Vector.replicate n 0)

def nextPoint (solver : Solver σ α) (held : DenseMatrix α) (iterate : Iterate α n) :
    Vector α n :=
  moved iterate.point (heading held iterate) solver.step.stepLength

/-- The calls of one iteration, all of them answered, and the iterate after it. -/
inductive Round (solver : Solver σ α) (iterate : Iterate α n) :
    Transcript α → Iterate α n → Prop
  /-- Without a rule the first iteration has the matrix of the initial point. -/
  | opening {x gradient : Vector α n} (unruled : solver.rule = none)
      (first : iterate.count = 0) (moves : x = solver.nextPoint iterate.hessian iterate) :
      Round solver iterate
        [.gradient x.toArray (.ok gradient.toArray)]
        ⟨iterate.count + 1, x, gradient, iterate.hessian⟩
  | newton {x gradient : Vector α n} {held : DenseMatrix α} (unruled : solver.rule = none)
      (later : 0 < iterate.count) (moves : x = solver.nextPoint held iterate) :
      Round solver iterate
        [.hessian iterate.point.toArray (.ok held),
          .gradient x.toArray (.ok gradient.toArray)]
        ⟨iterate.count + 1, x, gradient, held⟩
  /-- With a rule the two gradients of the pair are asked for before the matrix is
  refreshed, and the second one is asked for again afterwards. -/
  | secant {x gradient : Vector α n} {before after : Array α} {refresh : Refresh α}
      (ruled : solver.rule ≠ none) (moves : x = solver.nextPoint iterate.hessian iterate) :
      Round solver iterate
        [.gradient iterate.point.toArray (.ok before),
          .gradient x.toArray (.ok after),
          .refresh iterate.hessian (x - iterate.point).toArray (after.zipWith (· - ·) before)
            (.ok refresh),
          .gradient x.toArray (.ok gradient.toArray)]
        ⟨iterate.count + 1, x, gradient, refresh.matrix iterate.hessian⟩

/-- The calls from an iterate to the end of a run: those of some iterations, and
then the one for the value at the last iterate. -/
inductive Schedule (solver : Solver σ α) : Iterate α n → Transcript α → Iterate α n → Prop
  | ending {iterate value} :
      Schedule solver iterate [.cost iterate.point.toArray (.ok value)] iterate
  | round {iterate calls next schedule last} (here : Round solver iterate calls next)
      (rest : Schedule solver next schedule last) :
      Schedule solver iterate (calls ++ schedule) last

/-! ## The calls of the parts of a run -/

abbrev transcript (session : Session (Transcript α × σ) α) : Transcript α :=
  session.2.2.1

omit [Scalar α] in
theorem tell_asks (event : Event α) :
    Asks transcript (tell event : Eval (Session (Transcript α × σ) α) α Unit)
      fun schedule _ => schedule = [] :=
  .quiet (fun _ => rfl) (fun _ _ _ => rfl) ⟨(), rfl⟩

theorem gradientAt_asks (f : Objective σ α) (x : Vector α n) (k : Nat) :
    Asks transcript (gradientAt f.transcribed x k) fun schedule gradient =>
      schedule = [.gradient x.toArray (.ok gradient.toArray)] :=
  (f.gradient_puts x.toArray).beneath.checked
    (fun _ _ hpassed => (checkGradient_eq_ok_iff.mp hpassed).1) ⟨x⟩

theorem hessianAt_asks (f : Objective σ α) (x : Vector α n) (k : Nat) :
    Asks transcript (hessianAt f.transcribed x k) fun schedule hessian =>
      schedule = [.hessian x.toArray (.ok hessian)] := by
  apply ((f.hessian_puts x.toArray).beneath.asks ⟨⟨0, 0, #v[]⟩⟩).bind_calls
  intro hessian
  have hcheck : Asks (transcript : Session (Transcript α × σ) α → Transcript α)
      (.ofExcept (checkHessian n hessian k)) fun schedule _ => schedule = [] :=
    .ofExcept (fun _ _ => rfl) ⟨(), rfl⟩
  apply hcheck.bind_calls
  intro _
  exact .pure rfl

theorem costAt_asks (f : Objective σ α) (x : Vector α n) :
    Asks transcript (costAt f.transcribed x) fun schedule value =>
      schedule = [.cost x.toArray (.ok value)] :=
  (f.cost_puts x.toArray).beneath.asks ⟨0⟩

theorem between_asks (f : Objective σ α) (x x' : Array α) :
    Asks Objective.underTally (SecantPair.between f.transcribed.counted x x')
      fun schedule pair => ∃ before after,
        schedule = [.gradient x (.ok before), .gradient x' (.ok after)] ∧
        pair = ⟨x'.zipWith (· - ·) x, after.zipWith (· - ·) before⟩ := by
  have hdifference (xs ys : Array α) :
      Asks (Objective.underTally : Tally × Transcript α × σ → Transcript α)
        (.ofExcept (Failure.orClash (Dense.difference? xs ys)))
        fun schedule difference => schedule = [] ∧ difference = xs.zipWith (· - ·) ys := by
    apply Asks.ofExcept
    · intro difference h
      rw [Dense.difference?] at h
      split at h
      · cases h
        exact ⟨rfl, rfl⟩
      · cases h
    · exact ⟨_, rfl, rfl⟩
  unfold SecantPair.between
  simp only [ExceptT.bind_throw]
  apply Asks.throw_ite
  apply ((f.gradient_puts x).asks ⟨#[]⟩).bind_calls
  intro before
  apply ((f.gradient_puts x').asks ⟨#[]⟩).bind_calls
  intro after
  apply Asks.throw_ite
  apply Asks.throw_ite
  apply (hdifference x' x).bind_value
  apply (hdifference after before).bind_value
  apply Asks.ofExcept
  · intro pair h
    rw [SecantPair.ofSteps] at h
    split at h
    · cases h
      exact ⟨before, after, rfl, rfl⟩
    · cases h
  · exact ⟨_, before, after, rfl, rfl⟩

/-- What the matrix is that a direction is computed from, and the call for it. -/
inductive Consultation (solver : Solver σ α) (iterate : Iterate α n) :
    Transcript α → DenseMatrix α → Prop
  | again {held} (unruled : solver.rule = none) (later : 0 < iterate.count) :
      Consultation solver iterate [.hessian iterate.point.toArray (.ok held)] held
  | kept (known : solver.rule ≠ none ∨ iterate.count = 0) :
      Consultation solver iterate [] iterate.hessian

theorem matrixFor_asks (solver : Solver σ α) (f : Objective σ α) (iterate : Iterate α n) :
    Asks transcript (solver.transcribed.matrixFor f.transcribed iterate)
      (Consultation solver iterate) := by
  rw [matrixFor, (transcribed_follows solver).isNone]
  by_cases hasks : (solver.rule.isNone && decide (0 < iterate.count)) = true
  · rw [if_pos hasks]
    obtain ⟨hunruled, hlater⟩ : solver.rule = none ∧ 0 < iterate.count := by
      simpa using hasks
    apply (hessianAt_asks f iterate.point (iterate.count + 1)).mono
    rintro _ held rfl
    exact .again hunruled hlater
  · rw [if_neg hasks]
    apply Asks.pure
    apply Consultation.kept
    by_cases hunruled : solver.rule = none
    · simpa [hunruled] using hasks
    · exact .inl hunruled

/-- What the matrix is after a move, and the calls for it. -/
inductive Refreshment (solver : Solver σ α) (held : DenseMatrix α) (x x' : Vector α n) :
    Transcript α → DenseMatrix α → Prop
  | unruled (unruled : solver.rule = none) : Refreshment solver held x x' [] held
  | ruled {before after refresh} (ruled : solver.rule ≠ none) :
      Refreshment solver held x x'
        [.gradient x.toArray (.ok before), .gradient x'.toArray (.ok after),
          .refresh held (x' - x).toArray (after.zipWith (· - ·) before) (.ok refresh)]
        (refresh.matrix held)

theorem advance_rule_asks (rule : UpdateRule σ α) (f : Objective σ α) (held : DenseMatrix α)
    (x x' : Array α) :
    Asks Objective.underTally
      (rule.transcribed.beneath.advance f.transcribed.counted held x x')
      fun schedule refresh => ∃ before after, schedule =
        [.gradient x (.ok before), .gradient x' (.ok after),
          .refresh held (x'.zipWith (· - ·) x) (after.zipWith (· - ·) before)
          (.ok refresh)] := by
  apply (between_asks f x x').bind
  rintro _ pair ⟨before, after, rfl, rfl⟩
  apply ((rule.refresh_puts held _).asks ⟨.updated held⟩).mono
  rintro _ refresh rfl
  exact ⟨before, after, rfl⟩

theorem adopt_asks (method : String) (held : DenseMatrix α) (k : Nat) (refresh : Refresh α) :
    Asks (transcript : Session (Transcript α × σ) α → Transcript α)
    (adopt method held k refresh)
      fun schedule matrix => schedule = [] ∧ matrix = refresh.matrix held := by
  apply Asks.quiet
  · intro session
    rw [outcome_adopt]
  · intro session matrix hmatrix
    rw [outcome_adopt] at hmatrix
    by_cases hfinite : (refresh.matrix held).allFinite = true
    · simp only [if_pos hfinite] at hmatrix
      exact ⟨rfl, (Except.ok.inj hmatrix).symm⟩
    · simp only [if_neg hfinite] at hmatrix
      cases hmatrix
  · exact ⟨_, rfl, rfl⟩

theorem matrixAfter_asks (solver : Solver σ α) (f : Objective σ α) (held : DenseMatrix α)
    (x x' : Vector α n) (k : Nat) :
    Asks transcript (solver.transcribed.matrixAfter f.transcribed held x x' k)
      (Refreshment solver held x x') := by
  obtain ⟨step, rule⟩ := solver
  cases rule with
  | none => exact .pure (.unruled rfl)
  | some rule =>
      apply (advance_rule_asks rule f held x.toArray x'.toArray).beneath.bind
      rintro _ refresh ⟨before, after, rfl⟩
      apply (adopt_asks rule.name held k refresh).mono
      rintro _ matrix ⟨rfl, rfl⟩
      exact .ruled (Option.some_ne_none rule)

theorem advance_asks (solver : Solver σ α) (f : Objective σ α) (iterate : Iterate α n) :
    Asks transcript (solver.transcribed.advance f.transcribed iterate)
      (solver.Round iterate) := by
  simp only [advance, ExceptT.bind_throw]
  apply (matrixFor_asks solver f iterate).bind
  intro asked held hconsulted
  have hheading : Asks (transcript : Session (Transcript α × σ) α → Transcript α)
      (.ofExcept (descentDirection held iterate.gradient (iterate.count + 1)))
      fun schedule direction => schedule = [] ∧ direction = heading held iterate := by
    apply Asks.ofExcept
    · intro direction hdirection
      rw [heading, hdirection]
      exact ⟨rfl, rfl⟩
    · exact ⟨_, rfl, rfl⟩
  apply hheading.bind_value
  apply Asks.throw_ite
  apply (matrixAfter_asks solver f held _ _ _).bind
  intro calls matrix hrefreshed
  apply (gradientAt_asks f _ _).bind_calls
  intro gradient
  apply Asks.pure
  cases hconsulted with
  | again unruled later =>
      cases hrefreshed with
      | unruled _ => exact .newton unruled later rfl
      | ruled ruled => exact absurd unruled ruled
  | kept known =>
      cases hrefreshed with
      | unruled unruled =>
          exact .opening unruled (known.resolve_left (not_not_intro unruled)) rfl
      | ruled ruled => exact .secant ruled rfl

theorem iteration_asks (solver : Solver σ α) (f : Objective σ α) (iterate : Iterate α n) :
    Asks transcript (solver.transcribed.iteration f.transcribed iterate)
      (solver.Round iterate) := by
  apply (advance_asks solver f iterate).bind
  intro calls next hround
  apply (tell_asks _).bind_calls
  intro _
  apply Asks.pure
  simpa using hround

/-! ## Whole runs -/

theorem conclude_asks (solver : Solver σ α) (f : Objective σ α) (stopping : StoppingRule α)
    (iterate : Iterate α n) (ending : Ending) :
    Asks transcript (conclude f.transcribed stopping iterate ending) fun schedule report =>
      ∃ last, solver.Schedule iterate schedule last ∧
        report.iterations = last.count ∧ report.point = last.point.toArray := by
  apply (costAt_asks f iterate.point).bind_calls
  intro value
  apply (tell_asks _).bind_calls
  intro _
  have hcalls : Asks (transcript : Session (Transcript α × σ) α → Transcript α) callsMade
      fun schedule _ => schedule = [] :=
    .quiet (fun _ => rfl) (fun _ _ _ => rfl) ⟨{}, rfl⟩
  apply hcalls.bind_calls
  intro calls
  apply Asks.pure
  exact ⟨iterate, .ending, rfl, rfl⟩

theorem iterateFrom_asks (solver : Solver σ α) (f : Objective σ α) (stopping : StoppingRule α)
    (remaining : Nat) (iterate : Iterate α n) :
    Asks transcript (solver.transcribed.iterateFrom f.transcribed stopping remaining iterate)
      fun schedule report => ∃ last, solver.Schedule iterate schedule last ∧
        report.iterations = last.count ∧ report.point = last.point.toArray := by
  induction remaining generalizing iterate with
  | zero => exact conclude_asks solver f stopping iterate .maxIterations
  | succ remaining ih =>
      apply (iteration_asks solver f iterate).bind
      intro calls next hround
      by_cases hmet : stopping.isSatisfiedBy next.gradient.toList = true
      · rw [if_pos hmet]
        apply (conclude_asks solver f stopping next .converged).mono
        rintro schedule report ⟨last, hschedule, hreport⟩
        exact ⟨last, .round hround hschedule, hreport⟩
      · rw [if_neg hmet]
        apply (ih next).mono
        rintro schedule report ⟨last, hschedule, hreport⟩
        exact ⟨last, .round hround hschedule, hreport⟩

theorem enter_asks (solver : Solver σ α) (f : Objective σ α) (point : Array α)
    (stopping : StoppingRule α) :
    Asks transcript (solver.transcribed.enter f.transcribed point stopping)
      fun schedule first => first.count = 0 ∧ first.point = point.toVector ∧ schedule =
        [.gradient point (.ok first.gradient.toArray),
          .hessian point (.ok first.hessian)] := by
  have hvalidation (checked : Except (Failure α) Unit) :
      Asks (transcript : Session (Transcript α × σ) α → Transcript α) (.ofExcept checked)
        fun schedule _ => schedule = [] := .ofExcept (fun _ _ => rfl) ⟨(), rfl⟩
  apply (tell_asks _).bind_calls
  intro _
  apply (hvalidation stopping.validate).bind_calls
  intro _
  apply (hvalidation solver.step.validate).bind_calls
  intro _
  apply (hvalidation (validatePoint point)).bind_calls
  intro _
  apply (gradientAt_asks f point.toVector 0).bind_calls
  intro gradient
  apply (hessianAt_asks f point.toVector 0).bind_calls
  intro hessian
  apply Asks.pure
  exact ⟨rfl, rfl, rfl⟩

theorem run_asks (solver : Solver σ α) (f : Objective σ α) (point : Array α)
    (stopping : StoppingRule α) :
    Asks transcript (solver.transcribed.run f.transcribed point stopping)
      fun schedule report => ∃ (first last : Iterate α point.size) (rest : Transcript α),
        first.count = 0 ∧ first.point = point.toVector ∧ solver.Schedule first rest last ∧
        schedule = .gradient point (.ok first.gradient.toArray) ::
          .hessian point (.ok first.hessian) :: rest ∧
        report.iterations = last.count ∧ report.point = last.point.toArray := by
  apply (enter_asks solver f point stopping).bind
  rintro _ first ⟨hcount, hpoint, rfl⟩
  by_cases hmet : stopping.isSatisfiedBy first.gradient.toList = true
  · rw [if_pos hmet]
    apply (conclude_asks solver f stopping first .converged).mono
    rintro rest report ⟨last, hrest, hreport⟩
    exact ⟨first, last, rest, hcount, hpoint, hrest, rfl, hreport⟩
  · rw [if_neg hmet]
    apply (iterateFrom_asks solver f stopping _ first).mono
    rintro rest report ⟨last, hrest, hreport⟩
    exact ⟨first, last, rest, hcount, hpoint, hrest, rfl, hreport⟩

def watched (solver : Solver σ α) (f : Objective σ α) (point : Array α)
    (stopping : StoppingRule α) (state : σ) : Outcome (Transcript α × σ) α :=
  solver.transcribed.minimize f.transcribed point stopping ([], state)

theorem watched_result (solver : Solver σ α) (f : Objective σ α) (point : Array α)
    (stopping : StoppingRule α) (state : σ) :
    (solver.watched f point stopping state).result =
      (solver.minimize f point stopping state).result := by
  have hplain :=
    minimize_follows solver.transcribed_follows f.transcribed_follows point stopping
    ([], state)
  exact (congrArg Outcome.result hplain).symm

theorem watched_calls (solver : Solver σ α) (f : Objective σ α) (point : Array α)
    (stopping : StoppingRule α) (state : σ) :
    (solver.traced.minimize f.traced point stopping (#[], state)).state.1.toList =
      (solver.watched f point stopping state).state.1.map Exchange.call := by
  have htraced := minimize_follows solver.transcribed_follows_traced
    f.transcribed_follows_traced point stopping ([], state)
  have hstate := congrArg (fun outcome => outcome.state.1.toList) htraced
  exact hstate

/-- A call that a run is refused is its last one, and the run fails with the refusal. -/
theorem watched_last_of_failure (solver : Solver σ α) (f : Objective σ α) (point : Array α)
    (stopping : StoppingRule α) (state : σ) {before after : Transcript α} {line : Exchange α}
    {refusal : Failure α}
    (hlines : (solver.watched f point stopping state).state.1 = before ++ line :: after)
    (hline : line.failure? = some refusal) :
    after = [] ∧ (solver.watched f point stopping state).result = .error refusal := by
  obtain ⟨lines, _, value, -, hanswered, hrecord, hperforms⟩ :=
    run_asks solver f point stopping (#[], {}, ([], state))
  have hsame : (solver.watched f point stopping state).state.1 = lines := hrecord
  exact hperforms.last_of_failure hanswered (hsame ▸ hlines) hline

/-- A run asks for the gradient and the Hessian at the initial point, and then
goes along a schedule.  A run with a report goes through all of it, a run that
fails goes to a point within it.  A call that is refused is the last one, and the
run fails with the answer. -/
theorem run_follows_schedule (solver : Solver σ α) (f : Objective σ α) (point : Array α)
    (stopping : StoppingRule α) (state : σ) :
    (solver.watched f point stopping state).result =
      (solver.minimize f point stopping state).result ∧
    (solver.traced.minimize f.traced point stopping (#[], state)).state.1.toList =
      (solver.watched f point stopping state).state.1.map Exchange.call ∧
    ∃ (first last : Iterate α point.size) (rest : Transcript α),
      first.count = 0 ∧ first.point = point.toVector ∧ solver.Schedule first rest last ∧
      (∀ report, (solver.minimize f point stopping state).result = .ok report →
        (solver.watched f point stopping state).state.1 =
          .gradient point (.ok first.gradient.toArray) ::
            .hessian point (.ok first.hessian) :: rest ∧
        report.iterations = last.count ∧ report.point = last.point.toArray) ∧
      ∀ failure, (solver.minimize f point stopping state).result = .error failure →
        Interrupted failure (solver.watched f point stopping state).state.1
          (.gradient point (.ok first.gradient.toArray) ::
            .hessian point (.ok first.hessian) :: rest) ∧
        (solver.watched f point stopping state).state.1.map Exchange.call <+:
          .gradient point :: .hessian point :: rest.map Exchange.call ∧
        ∀ before line after refusal,
          (solver.watched f point stopping state).state.1 = before ++ line :: after →
          line.failure? = some refusal → after = [] ∧ refusal = failure := by
  refine ⟨watched_result solver f point stopping state,
    watched_calls solver f point stopping state, ?_⟩
  obtain ⟨lines, _, value, ⟨first, last, rest, hcount, hpoint, hrest, rfl, hreport⟩, -,
    hrecord, hperforms⟩ := run_asks solver f point stopping (#[], {}, ([], state))
  have hlines : (solver.watched f point stopping state).state.1 = lines := hrecord
  have hresult : ((solver.transcribed.run f.transcribed point stopping).outcome
      (#[], {}, ([], state))).1 = (solver.minimize f point stopping state).result :=
    watched_result solver f point stopping state
  rw [hresult] at hperforms
  rw [hlines]
  refine ⟨first, last, rest, hcount, hpoint, hrest, ?_, ?_⟩
  · intro report hok
    rw [hok] at hperforms
    cases hperforms with
    | whole => exact ⟨rfl, hreport⟩
  · intro failure herror
    rw [herror] at hperforms
    cases hperforms with
    | broken hinterrupted =>
        exact ⟨hinterrupted, hinterrupted.calls_begin,
          fun before line after refusal => hinterrupted.last_of_failure⟩

end Solver

end SecantDescent
