import SecantDescent.Failure.Message
import SecantDescent.Proofs.Run.Misfits

/-!
# The arguments of a run

A run checks its tolerance, its budget, its step length and its initial point, in
this order and before it calls anything, and objects to the first of them that is
violated.  With callables that do not object themselves, that is the only way in
which a run fails with an objection.  A run whose arguments pass calls the gradient
at the initial point, and calls nothing else unless the answer is usable.
-/

namespace SecantDescent

open Eval

variable {σ α β ω : Type}

/-! ## Checks in order -/

/-- How named checks end that are made in order; the flag says whether the check
objects. -/
inductive Verdict : List (String × Bool) → Except (Failure α) Unit → Prop
  | passed : Verdict [] (.ok ())
  | next {name checks result} (rest : Verdict checks result) :
      Verdict ((name, false) :: checks) result
  | refused {name checks objection} (named : Objection.argument objection = name) :
      Verdict ((name, true) :: checks) (.error (.invalidArgument objection))

namespace Verdict

variable {checks checks' : List (String × Bool)} {result result' : Except (Failure α) Unit}

theorem append (h : Verdict checks result) (h' : Verdict checks' result') :
    Verdict (checks ++ checks') (result >>= fun _ => result') := by
  induction h with
  | passed => exact h'
  | next rest ih => exact .next ih
  | refused named => exact .refused named

theorem ne_ok_iff (h : Verdict checks result) :
    result ≠ .ok () ↔ ∃ check ∈ checks, check.2 = true := by
  induction h with
  | passed => simp
  | next rest ih => simpa using ih
  | refused named => simp

/-- The objection is to the argument of the first check that objects. -/
theorem eq_error (h : Verdict checks result) {failure : Failure α}
    (hfailed : result = .error failure) :
    ∃ objection, failure = .invalidArgument objection ∧
      (checks.find? Prod.snd).map Prod.fst = some objection.argument := by
  induction h with
  | passed => cases hfailed
  | next rest ih => exact ih hfailed
  | @refused name checks objection named =>
      cases hfailed
      exact ⟨objection, rfl, congrArg some named.symm⟩

end Verdict

variable [Scalar α]

/-- The names of the arguments in the order of their checks, and whether they are
violated. -/
def argumentChecks (stepLength : α) (stopping : StoppingRule α) (point : Array α) :
    List (String × Bool) :=
  [("convergence", Scalar.isNaN stopping.tolerance || stopping.tolerance < 0),
    ("max_iterations", stopping.maxIterations = 0),
    ("step_length", !Scalar.isFinite stepLength || stepLength ≤ 0),
    ("initial_point", point.isEmpty || !Scalar.allFinite point.toList)]

theorem Scalar.allFinite_eq_false_iff {xs : List α} :
    allFinite xs = false ↔ ∃ x ∈ xs, isFinite x = false := by
  simp [allFinite]

theorem exists_violated_iff {stepLength : α} {stopping : StoppingRule α} {point : Array α} :
    (∃ check ∈ argumentChecks stepLength stopping point, check.2 = true) ↔
      (Scalar.isNaN stopping.tolerance = true ∨ stopping.tolerance < 0) ∨
      stopping.maxIterations = 0 ∨
      (Scalar.isFinite stepLength = false ∨ stepLength ≤ 0) ∨
      point = #[] ∨ ∃ x ∈ point.toList, Scalar.isFinite x = false := by
  simp [argumentChecks, Scalar.allFinite_eq_false_iff]

theorem StoppingRule.validate_verdict (stopping : StoppingRule α) :
    Verdict [("convergence", Scalar.isNaN stopping.tolerance || stopping.tolerance < 0),
      ("max_iterations", stopping.maxIterations = 0)] stopping.validate := by
  unfold validate
  by_cases hnumber : Scalar.isNaN stopping.tolerance = true
  · rw [if_pos hnumber, hnumber]
    exact .refused rfl
  rw [if_neg hnumber, Bool.eq_false_iff.mpr hnumber, Bool.false_or]
  by_cases hnegative : stopping.tolerance < 0
  · rw [if_pos hnegative, decide_eq_true hnegative]
    exact .refused rfl
  rw [if_neg hnegative, decide_eq_false hnegative]
  by_cases hbudget : stopping.maxIterations = 0
  · rw [if_pos hbudget, decide_eq_true hbudget]
    exact .next (.refused rfl)
  · rw [if_neg hbudget, decide_eq_false hbudget]
    exact .next (.next .passed)

theorem StepRule.validate_verdict (step : StepRule α) :
    Verdict [("step_length", !Scalar.isFinite step.stepLength || step.stepLength ≤ 0)]
      step.validate := by
  unfold validate
  by_cases hviolated : (!Scalar.isFinite step.stepLength || step.stepLength ≤ 0) = true
  · rw [if_pos hviolated, hviolated]
    exact .refused rfl
  · rw [if_neg hviolated, Bool.eq_false_iff.mpr hviolated]
    exact .next .passed

namespace Solver

theorem validatePoint_verdict (point : Array α) :
    Verdict [("initial_point", point.isEmpty || !Scalar.allFinite point.toList)]
      (validatePoint point) := by
  unfold validatePoint
  by_cases hempty : point.isEmpty = true
  · rw [if_pos hempty, hempty]
    exact .refused rfl
  rw [if_neg hempty, Bool.eq_false_iff.mpr hempty, Bool.false_or]
  by_cases hnotFinite : (!Scalar.allFinite point.toList) = true
  · rw [if_pos hnotFinite, hnotFinite]
    exact .refused rfl
  · rw [if_neg hnotFinite, Bool.eq_false_iff.mpr hnotFinite]
    exact .next .passed

theorem checkArguments_verdict (solver : Solver σ α) (point : Array α)
    (stopping : StoppingRule α) :
    Verdict (argumentChecks solver.step.stepLength stopping point)
      (solver.checkArguments point stopping) :=
  stopping.validate_verdict.append
    (solver.step.validate_verdict.append (validatePoint_verdict point))

end Solver

/-! ## The first call -/

/-- The callables do not object to arguments themselves. -/
structure Objective.NeverObjects (f : Objective σ α) : Prop where
  cost : ∀ x state objection, ((f.cost x).outcome state).1 ≠
    .error (.invalidArgument objection)
  gradient : ∀ x state objection,
    ((f.gradient x).outcome state).1 ≠ .error (.invalidArgument objection)
  hessian : ∀ x state objection,
    ((f.hessian x).outcome state).1 ≠ .error (.invalidArgument objection)

/-- The transcript begins with a usable gradient at the point. -/
def Opened (point : Array α) (lines : Transcript α) : Prop :=
  ∃ g rest, lines = .gradient point (.ok g) :: rest ∧ g.size = point.size ∧
    Scalar.allFinite g.toList = true

/-- The transcript begins with the gradient at the point, and goes on only if the
answer is usable. -/
def Begins (point : Array α) (lines : Transcript α) : Prop :=
  (∃ answer, lines = [.gradient point answer]) ∨ Opened point lines

omit [Scalar α] in
theorem Asks.meets {record : ω → Transcript α} {act : Eval ω α β}
    {plan : Transcript α → β → Prop} {holds : Transcript α → Prop}
    (h : Asks record act plan) (hgrows : ∀ lines more, holds lines → holds (lines ++ more)) :
    Meets record holds act (fun _ => holds) fun _ => holds := by
  apply Meets.intro
  all_goals
    intro state _ after hbefore hact
    obtain ⟨lines, _, _, -, -, hrecord, -⟩ := h state
    rw [hact] at hrecord
    rw [hrecord]
    exact hgrows _ _ hbefore

theorem Opened.append {point : Array α} {lines : Transcript α} (h : Opened point lines)
    (more : Transcript α) : Opened point (lines ++ more) := by
  obtain ⟨g, rest, rfl, husable⟩ := h
  exact ⟨g, rest ++ more, rfl, husable⟩

namespace Solver

theorem gradientAt_begins (f : Objective σ α) (point : Array α) :
    Meets transcript (· = []) (gradientAt f.transcribed point.toVector 0)
      (fun _ => Opened point) fun _ => Begins point := by
  apply (gradientAt_meets f point.toVector 0 _).mono
  · rintro g lines ⟨⟨hfinite, -⟩, _, rfl, rfl⟩
    exact ⟨g.toArray, [], rfl, g.size_toArray, hfinite⟩
  · rintro failure lines ⟨answer, -, ⟨_, rfl, rfl⟩, -⟩
    exact .inl ⟨answer, rfl⟩

theorem run_begins {solver : Solver σ α} {point : Array α} {stopping : StoppingRule α}
    (hpassed : solver.checkArguments point stopping = .ok ()) (f : Objective σ α) :
    Meets transcript (· = []) (solver.transcribed.run f.transcribed point stopping)
      (fun _ => Begins point) fun _ => Begins point := by
  have hgrows (lines more : Transcript α) (h : Opened point lines) :
      Opened point (lines ++ more) := h.append more
  have hopened {β : Type} {act : Eval (Session (Transcript α × σ) α) α β}
      {plan : Transcript α → β → Prop} (h : Asks transcript act plan) :
      Meets transcript (Opened point) act (fun _ => Opened point) fun _ => Begins point :=
    (h.meets hgrows).mono (fun _ _ h => h) fun _ _ => .inr
  have hstart : Meets (belowLog Objective.underTally) (· = [])
      (initialIterate f.transcribed point.toVector) (fun _ => Opened point)
      fun _ => Begins point := by
    apply (gradientAt_begins f point).bind
    intro g
    apply (hopened (hessianAt_asks f point.toVector 0)).bind
    intro B
    exact .pure fun _ h => h
  apply run_meets_report Objective.underTally (fun _ => Begins point) ?_ hstart
  · exact fun iterate => hopened (advance_asks solver f iterate)
  · exact fun iterate =>
      (hopened (costAt_asks f iterate.point)).mono (fun _ _ => .inr) fun _ _ h => h
  · intro failure hrefused
    have hpassed' : solver.transcribed.checkArguments point stopping = .ok () := hpassed
    rw [hpassed'] at hrefused
    cases hrefused

/-! ## Objections -/

variable {f : Objective σ α}

omit [Scalar α] in
theorem failsAs_of_neverObjects (hf : f.NeverObjects) :
    f.FailsAs fun failure => ∀ objection, failure ≠ .invalidArgument objection where
  cost x state _ hfailure objection hobjects := hf.cost x state objection (hobjects ▸ hfailure)
  gradient x state _ hfailure objection hobjects :=
    hf.gradient x state objection (hobjects ▸ hfailure)
  hessian x state _ hfailure objection hobjects :=
    hf.hessian x state objection (hobjects ▸ hfailure)

variable {stepLength : α} {method : Option (SecantRule × Safeguard α)} {point : Array α}
variable {stopping : StoppingRule α}

/-- A run objects to its arguments before it calls anything, or not at all. -/
theorem objection_of_checkArguments (hf : f.NeverObjects) {state : σ} {objection : Objection α}
    (h : ((ofSecant stepLength method).minimize f point stopping state).result =
      .error (.invalidArgument objection)) :
    (ofSecant stepLength method : Solver σ α).checkArguments point stopping =
      .error (.invalidArgument objection) := by
  have hown : Failure.TakesOwn fun failure : Failure α =>
      ∀ objection, failure ≠ .invalidArgument objection :=
    ⟨fun _ _ _ => nofun, fun _ => nofun, fun _ _ => nofun⟩
  refine (minimize_failsAs hown (failsAs_of_neverObjects hf) ?_ h).resolve_right
    fun hfine => hfine objection rfl
  intro rule hrule
  obtain ⟨secant, safeguard, rfl⟩ := rule_ofSecant hrule
  exact secant.toUpdateRule_failsAs hown (fun _ _ _ => nofun) safeguard

/-- A run whose arguments do not pass fails with an objection. -/
theorem exists_objection {solver : Solver σ α}
    (h : solver.checkArguments point stopping ≠ .ok ()) (f : Objective σ α) (state : σ) :
    ∃ objection, (solver.minimize f point stopping state).result =
      .error (.invalidArgument objection) := by
  cases hchecked : solver.checkArguments point stopping with
  | ok _ => exact absurd hchecked h
  | error failure =>
      obtain ⟨objection, rfl⟩ := checkArguments_eq_error hchecked
      exact ⟨objection, congrArg Outcome.result (minimize_of_refused hchecked f state)⟩

/-- With callables that do not object themselves, a run fails with an objection
exactly when an argument is violated, namely with one to the first argument that is,
and before it has called anything.  Any other run first calls the gradient at the
initial point, and nothing else unless the answer is as long as the point and finite. -/
theorem objections_are_made_on_entry (f : Objective σ α) (hf : f.NeverObjects) (stepLength : α)
    (method : Option (SecantRule × Safeguard α)) (point : Array α) (stopping : StoppingRule α)
    (state : σ) :
    let run := (ofSecant stepLength method).minimize f point stopping state
    let watched := (ofSecant stepLength method).watched f point stopping state
    ((∃ objection, run.result = .error (.invalidArgument objection)) ↔
      (Scalar.isNaN stopping.tolerance = true ∨ stopping.tolerance < 0) ∨
      stopping.maxIterations = 0 ∨
      (Scalar.isFinite stepLength = false ∨ stepLength ≤ 0) ∨
      point = #[] ∨ ∃ x ∈ point.toList, Scalar.isFinite x = false) ∧
    (∀ objection, run.result = .error (.invalidArgument objection) →
      ((argumentChecks stepLength stopping point).find? Prod.snd).map Prod.fst =
        some objection.argument ∧
      watched.state = ([], state)) ∧
    ((∀ objection, run.result ≠ .error (.invalidArgument objection)) →
      ∃ answer rest, watched.state.1 = .gradient point answer :: rest ∧
        (rest ≠ [] → ∃ g, answer = .ok g ∧ g.size = point.size ∧
          Scalar.allFinite g.toList = true)) := by
  intro run watched
  have hverdict : Verdict (argumentChecks stepLength stopping point)
      ((ofSecant stepLength method : Solver σ α).checkArguments point stopping) :=
    checkArguments_verdict (ofSecant stepLength method) point stopping
  refine ⟨?_, ?_, ?_⟩
  · rw [← exists_violated_iff, ← hverdict.ne_ok_iff]
    constructor
    · rintro ⟨objection, hobjects⟩
      rw [objection_of_checkArguments hf hobjects]
      nofun
    · exact fun hrefused => exists_objection hrefused f state
  · intro objection hobjects
    have hrefused := objection_of_checkArguments hf hobjects
    obtain ⟨_, hsame, hfirst⟩ := hverdict.eq_error hrefused
    cases hsame
    refine ⟨hfirst, ?_⟩
    have hrefused' : (ofSecant stepLength method : Solver σ α).transcribed.checkArguments point
        stopping = .error (.invalidArgument objection) := hrefused
    exact congrArg Outcome.state (minimize_of_refused hrefused' f.transcribed ([], state))
  · intro hfine
    have hpassed : (ofSecant stepLength method : Solver σ α).checkArguments point stopping =
        .ok () := by
      refine Classical.byContradiction fun hrefused => ?_
      obtain ⟨objection, hobjects⟩ := exists_objection hrefused f state
      exact hfine objection hobjects
    have hends := watched_meets (run_begins hpassed f) rfl state
    have hbegins : Begins point watched.state.1 := hends.always
    rcases hbegins with ⟨answer, hlines⟩ | ⟨g, rest, hlines, hsize, hfinite⟩
    · exact ⟨answer, [], hlines, fun hmore => absurd rfl hmore⟩
    · exact ⟨.ok g, rest, hlines, fun _ => ⟨g, rfl, hsize, hfinite⟩⟩

theorem sloping_neverObjects : sloping.NeverObjects :=
  ⟨fun _ _ => nofun, fun _ _ => nofun, fun _ _ => nofun⟩

/-- The budget, the step length and the point are violated; the objection is to the
first of them. -/
theorem sloping_run_objects_to_budget :
    sloping.NeverObjects ∧
      ∃ objection : Objection Float,
        ((ofSecant 0 (some (.bfgs, ⟨.skip, 0⟩))).minimize sloping #[] ⟨0, 0⟩ ()).result =
          .error (.invalidArgument objection) ∧
        objection.argument = "max_iterations" := by
  obtain ⟨hobjects_iff, hnames, -⟩ :=
    objections_are_made_on_entry sloping sloping_neverObjects 0
    (some (.bfgs, ⟨.skip, 0⟩)) #[] ⟨0, 0⟩ ()
  obtain ⟨objection, hobjects⟩ := hobjects_iff.mpr (.inr (.inl rfl))
  have hfirst : ((argumentChecks (0 : Float) ⟨0, 0⟩ #[]).find? Prod.snd).map Prod.fst =
      some "max_iterations" := by
    decide +kernel
  refine ⟨sloping_neverObjects, objection, hobjects, ?_⟩
  exact Option.some.inj ((hnames objection hobjects).1.symm.trans hfirst)

end Solver

end SecantDescent
