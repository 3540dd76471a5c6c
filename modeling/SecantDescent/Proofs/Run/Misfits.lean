import SecantDescent.Proofs.Run.Checked
import SecantDescent.Proofs.Run.Policies

/-!
# Answers of the wrong shape

A run compares the shape of every gradient and of every Hessian with the size of
the point as soon as it has them, for a secant pair when it has both, wherever it
is.  A matrix that the rule has made is looked at when the next direction is
computed.  So an argument failure comes from the arguments or from one of the last
two answers, and a rule can put a matrix of any shape into the report of a run whose
last iteration it is.
-/

namespace SecantDescent

open Eval

variable {σ α : Type} {n : Nat}

/-- Every answer had the shape that belongs to points of size `n`. -/
def Fits (n : Nat) (lines : Transcript α) : Prop :=
  ∀ line ∈ lines, line.misfit? n = none

/-- What a transcript says of an argument failure: a callable has refused its last
call with it, or one of the last two answers had the wrong shape. -/
inductive Blames (n : Nat) (failure : Failure α) : Transcript α → Prop
  | other {lines} (harmless : failure.isInvalidArgument = false) : Blames n failure lines
  | refusal {before line} (refused : line.failure? = some failure) :
      Blames n failure (before ++ [line])
  | misfit {before line after} (wrong : line.misfit? n = some failure)
      (recent : after.length ≤ 1) : Blames n failure (before ++ line :: after)

/-- The matrix held has the right shape, and so has every answer; or the rule has
made it, nothing was asked since but what is given, and every answer before had the
right shape. -/
inductive Stands (solver : Solver σ α) (n : Nat) (B : DenseMatrix α) (since : Transcript α) :
    Transcript α → Prop
  | square {lines} (shape : B.rows = n ∧ B.cols = n) (fits : Fits n lines) :
      Stands solver n B since lines
  | misfit {before held s y} (ruled : solver.rule ≠ none) (wrong : ¬ (B.rows = n ∧ B.cols = n))
      (fits : Fits n before) :
      Stands solver n B since (before ++ .refresh held s y (.ok (.updated B)) :: since)

variable {lines : Transcript α} {line : Exchange α} {failure : Failure α}

theorem Fits.append (h : Fits n lines) (hline : line.misfit? n = none) :
    Fits n (lines ++ [line]) :=
  List.forall_mem_append.mpr ⟨h, List.forall_mem_singleton.mpr hline⟩

theorem Fits.of_after (h : After (Fits n) line lines) (hline : line.misfit? n = none) :
    Fits n lines := by
  obtain ⟨earlier, hearlier, rfl⟩ := h
  exact hearlier.append hline

namespace Blames

variable {before : Transcript α → Prop}

theorem of_refusal (h : After before line lines) (hline : line.failure? = some failure) :
    Blames n failure lines := by
  obtain ⟨earlier, -, rfl⟩ := h
  exact .refusal hline

theorem of_misfit (h : After before line lines) (hline : line.misfit? n = some failure) :
    Blames n failure lines := by
  obtain ⟨earlier, -, rfl⟩ := h
  exact .misfit hline (Nat.zero_le 1)

theorem of_stops [Scalar α] {k : Nat} (h : After before line lines)
    (hline : line.Stops n failure k) : Blames n failure lines := by
  cases hline with
  | refused refused => exact .of_refusal h refused
  | misfit wrong => exact .of_misfit h wrong
  | nonFinite notFinite reported =>
      rw [reported]
      exact .other rfl

end Blames

namespace Stands

variable {solver : Solver σ α} {B : DenseMatrix α} {since : Transcript α}

theorem append (h : Stands solver n B since lines) (hline : line.misfit? n = none) :
    Stands solver n B (since ++ [line]) (lines ++ [line]) := by
  cases h with
  | square shape fits => exact .square shape (fits.append hline)
  | misfit ruled wrong fits =>
      rw [List.append_assoc, List.cons_append]
      exact .misfit ruled wrong fits

theorem fits (h : Stands solver n B since lines) (hshape : B.rows = n ∧ B.cols = n) :
    Fits n lines := by
  cases h with
  | square shape fits => exact fits
  | misfit ruled wrong fits => exact absurd hshape wrong

theorem of_unruled (h : Stands solver n B since lines) (hunruled : solver.rule = none) :
    Fits n lines := by
  cases h with
  | square shape fits => exact fits
  | misfit ruled wrong fits => exact absurd hunruled ruled

theorem blames (h : Stands solver n B since lines) (hwrong : ¬ (B.rows = n ∧ B.cols = n))
    (hrecent : since.length ≤ 1) : Blames n (.notSquare "hessian" n B.rows B.cols) lines := by
  cases h with
  | square shape fits => exact absurd shape hwrong
  | misfit ruled wrong fits => exact .misfit (if_neg hwrong) hrecent

end Stands

namespace Solver

variable [Scalar α] {solver : Solver σ α} {before : Transcript α → Prop}

/-! ## The parts of a run -/

theorem gradientAt_blames (f : Objective σ α) (x : Vector α n) (k : Nat)
    (before : Transcript α → Prop) :
    Meets transcript before (gradientAt f.transcribed x k)
      (fun g => After before (.gradient x.toArray (.ok g.toArray))) (Blames n) := by
  apply (gradientAt_meets f x k before).mono
  · exact fun g lines hanswered => hanswered.2
  · rintro failure lines ⟨answer, -, hlines, hstops⟩
    exact .of_stops hlines hstops

theorem hessianAt_blames (f : Objective σ α) (x : Vector α n) (k : Nat)
    (before : Transcript α → Prop) :
    Meets transcript before (hessianAt f.transcribed x k)
      (fun B lines => B.FiniteSquare n ∧ After before (.hessian x.toArray (.ok B)) lines)
      (Blames n) := by
  apply (hessianAt_meets f x k before).mono
  · exact fun _ _ hanswered => hanswered
  · rintro failure lines ⟨answer, hlines, hstops⟩
    exact .of_stops hlines hstops

theorem between_blames (f : Objective σ α) (x x' : Vector α n) :
    Meets Objective.underTally (Fits n)
      (SecantPair.between f.transcribed.counted x.toArray x'.toArray)
      (fun _ => Fits n) (Blames n) := by
  apply (between_meets f x x' (Fits n)).mono
  · rintro pair lines ⟨-, g, g', ⟨-, -, hsize, hsize', -⟩, _, hfirst, rfl⟩
    have hfits := Fits.of_after hfirst (Exchange.misfit?_gradient hsize)
    exact hfits.append (Exchange.misfit?_gradient hsize')
  · rintro failure lines (hrefused | ⟨g, answer, -, hwrong | hrefused | hwrong, hlines⟩)
    · exact .of_refusal hrefused rfl
    · -- The sizes are compared when both gradients are there.
      obtain ⟨_, ⟨before, -, rfl⟩, rfl⟩ := hlines
      rw [List.append_assoc]
      exact .misfit hwrong (Nat.le_refl 1)
    · exact .of_refusal hlines hrefused
    · exact .of_misfit hlines hwrong

theorem matrixFor_stands (solver : Solver σ α) (f : Objective σ α) (iterate : Iterate α n)
    (since : Transcript α) :
    Meets transcript
      (fun lines => iterate.hessian.allFinite = true ∧
        Stands solver n iterate.hessian since lines)
      (solver.transcribed.matrixFor f.transcribed iterate)
      (fun held lines => held.allFinite = true ∧ Stands solver n held since lines)
      (Blames n) := by
  rw [matrixFor, (transcribed_follows solver).isNone]
  apply Meets.ite
  · intro hasks
    obtain ⟨hunruled, -⟩ : solver.rule = none ∧ 0 < iterate.count := by
      simpa using hasks
    refine ((hessianAt_blames f iterate.point (iterate.count + 1) (Fits n)).mono_pre
      fun _ h => h.2.of_unruled hunruled).mono ?_ fun _ _ h => h
    rintro held lines ⟨⟨hrows, hcols, hfinite⟩, hlines⟩
    have hshape := And.intro hrows hcols
    exact ⟨hfinite, .square hshape (.of_after hlines (Exchange.misfit?_hessian hshape))⟩
  · intro _
    exact .pure fun _ h => h

theorem direction_fits (held : DenseMatrix α) (g : Vector α n) (k : Nat) (x : Array α) :
    Meets transcript
      (fun lines => held.allFinite = true ∧
        Stands solver n held [.gradient x (.ok g.toArray)] lines)
      (.ofExcept (descentDirection held g k) :
        Eval (Session (Transcript α × σ) α) α (Vector α n))
      (fun _ lines => held.FiniteSquare n ∧ Fits n lines) (Blames n) := by
  apply Meets.ofExcept
  · rintro direction lines hdirection ⟨hfinite, hstands⟩
    -- Nothing before the solution of the equations looks at the shape of a matrix of
    -- the rule.
    have hshape : held.rows = n ∧ held.cols = n := by
      apply Decidable.byContradiction
      intro hwrong
      rw [descentDirection_of_misfit hwrong] at hdirection
      cases hdirection
    exact ⟨⟨hshape.1, hshape.2, hfinite⟩, hstands.fits hshape⟩
  · rintro failure lines hfailed ⟨-, hstands⟩
    rcases descentDirection_eq_error hfailed with ⟨hwrong, rfl⟩ | rfl
    · exact hstands.blames (DenseMatrix.toGrid?_eq_none_iff.mp hwrong) (Nat.le_refl 1)
    · exact .other rfl

theorem matrixAfter_stands (solver : Solver σ α) (f : Objective σ α) {held : DenseMatrix α}
    (hheld : held.FiniteSquare n) (x x' : Vector α n) (k : Nat) :
    Meets transcript (Fits n) (solver.transcribed.matrixAfter f.transcribed held x x' k)
      (fun B lines => B.allFinite = true ∧ Stands solver n B [] lines) (Blames n) := by
  have hshape : held.rows = n ∧ held.cols = n := ⟨hheld.rows, hheld.cols⟩
  obtain ⟨step, rule⟩ := solver
  cases rule with
  | none => exact .pure fun _ h => ⟨hheld.finite, .square hshape h⟩
  | some rule =>
      have hrefresh (pair : SecantPair α) : Meets Objective.underTally (Fits n)
          (rule.transcribed.beneath.refresh held pair)
          (fun refresh => Stands ⟨step, some rule⟩ n (refresh.matrix held) []) (Blames n) := by
        apply ((rule.refresh_puts held pair).meets (Fits n)).mono
        · rintro refresh _ ⟨lines, hfits, rfl⟩
          cases refresh with
          | skipped degeneracy => exact .square hshape (hfits.append rfl)
          | updated B =>
              by_cases hB : B.rows = n ∧ B.cols = n
              · exact .square hB (hfits.append (if_pos hB))
              · exact .misfit (Option.some_ne_none rule) hB hfits
        · exact fun failure lines hlines => .of_refusal hlines rfl
      have hadvance := (between_blames f x x').bind hrefresh
      apply hadvance.beneath.bind
      intro refresh
      refine (adopt_meets rule.name held k refresh fun _ _ => .other rfl).mono ?_
        fun _ _ h => h
      rintro B lines ⟨⟨rfl, hfinite⟩, hstands⟩
      exact ⟨hfinite, hstands⟩

/-- What is known of an iterate with the transcript so far. -/
def Known (solver : Solver σ α) (iterate : Iterate α n) (lines : Transcript α) : Prop :=
  iterate.hessian.allFinite = true ∧
    Stands solver n iterate.hessian
      [.gradient iterate.point.toArray (.ok iterate.gradient.toArray)] lines

theorem advance_known (solver : Solver σ α) (f : Objective σ α) (iterate : Iterate α n) :
    Meets transcript (Known solver iterate)
      (solver.transcribed.advance f.transcribed iterate) (Known solver) (Blames n) := by
  change Meets (belowLog Objective.underTally) _ _ _ _
  apply advance_meets (matrixFor_stands solver f iterate _)
  · exact fun held => direction_fits held iterate.gradient _ _
  · exact fun _ _ _ => .other rfl
  · exact fun held x => .of_fact fun hheld => matrixAfter_stands solver f hheld _ x _
  · intro x B
    apply Meets.of_fact
    intro hfinite
    apply (gradientAt_blames f x _ _).mono ?_ fun _ _ h => h
    rintro gradient _ ⟨lines, hstands, rfl⟩
    exact ⟨hfinite, hstands.append (Exchange.misfit?_gradient gradient.size_toArray)⟩

theorem initialIterate_known (solver : Solver σ α) (f : Objective σ α) (point : Array α) :
    Meets transcript (· = []) (initialIterate f.transcribed point.toVector)
      (Known solver) (Blames point.size) := by
  have hnil (lines : Transcript α) (h : lines = []) : Fits point.size lines := by
    rw [h]
    nofun
  apply ((gradientAt_blames f point.toVector 0 (Fits point.size)).mono_pre hnil).bind
  intro gradient
  apply (hessianAt_blames f point.toVector 0 _).bind
  intro hessian
  apply Meets.pure
  rintro _ ⟨⟨hrows, hcols, hfinite⟩, lines, hlines, rfl⟩
  have hfits := Fits.of_after hlines (Exchange.misfit?_gradient gradient.size_toArray)
  exact ⟨hfinite,
    .square ⟨hrows, hcols⟩ (hfits.append (Exchange.misfit?_hessian ⟨hrows, hcols⟩))⟩

/-- What is known of the matrix of a report. -/
def Reported (solver : Solver σ α) (n : Nat) (B : DenseMatrix α)
    (lines : Transcript α) : Prop :=
  B.allFinite = true ∧ ∃ x g value,
    Stands solver n B [.gradient x (.ok g), .cost x (.ok value)] lines

theorem run_blames (solver : Solver σ α) (f : Objective σ α) (point : Array α)
    (stopping : StoppingRule α) :
    Meets transcript (· = []) (solver.transcribed.run f.transcribed point stopping)
      (fun report => Reported solver point.size report.hessian)
      (fun failure lines =>
        solver.checkArguments point stopping = .error failure ∨
          Blames point.size failure lines) := by
  have hcost (iterate : Iterate α point.size) : Meets transcript (Known solver iterate)
      (costAt f.transcribed iterate.point)
      (fun _ => Reported solver point.size iterate.hessian) (Blames point.size) := by
    apply ((f.cost_puts iterate.point.toArray).beneath.meets _).mono
    · rintro value _ ⟨lines, ⟨hfinite, hstands⟩, rfl⟩
      exact ⟨hfinite, _, _, value, hstands.append rfl⟩
    · exact fun failure lines hlines => .of_refusal hlines rfl
  change Meets (belowLog Objective.underTally) _ _ _ _
  apply run_meets_report Objective.underTally (Reported solver point.size)
  · exact fun failure hrefused _ _ => .inl hrefused
  · exact (initialIterate_known solver f point).mono (fun _ _ h => h) fun _ _ => .inr
  · exact fun iterate => (advance_known solver f iterate).mono (fun _ _ h => h) fun _ _ => .inr
  · exact fun iterate => (hcost iterate).mono (fun _ _ h => h) fun _ _ => .inr

theorem minimize_of_refused {point : Array α} {stopping : StoppingRule α} {failure : Failure α}
    (h : solver.checkArguments point stopping = .error failure) (f : Objective σ α)
    (state : σ) :
    solver.minimize f point stopping state =
      ⟨.error failure, state, {}, #[.started solver.name]⟩ := by
  have hrun : (solver.run f point stopping).outcome (#[], {}, state) =
      (.error failure, #[.started solver.name], {}, state) := by
    rw [run, outcome_bind, outcome_enter, h]
    rfl
  rw [minimize, hrun]

/-- An argument failure of a run comes from the arguments, before anything was
asked, or a callable has refused its last call with it, or it is that one of the
last two answers had the wrong shape. -/
theorem argument_failure_cases (solver : Solver σ α) (f : Objective σ α) (point : Array α)
    (stopping : StoppingRule α) (state : σ) (failure : Failure α)
    (hargument : failure.isInvalidArgument = true)
    (hresult : (solver.minimize f point stopping state).result = .error failure) :
    let lines := (solver.watched f point stopping state).state.1
    (solver.checkArguments point stopping = .error failure ∧ lines = [] ∧
      (solver.minimize f point stopping state).log = #[.started solver.name]) ∨
    (∃ before line, lines = before ++ [line] ∧ line.failure? = some failure) ∨
    ∃ before line after, lines = before ++ line :: after ∧ after.length ≤ 1 ∧
      line.misfit? point.size = some failure := by
  intro lines
  have hends := watched_meets (run_blames solver f point stopping) rfl state
  rw [watched_result, hresult] at hends
  rcases hends with hrefused | hblames
  · left
    have hrefused' : solver.transcribed.checkArguments point stopping = .error failure :=
      hrefused
    have hnothing := minimize_of_refused hrefused' f.transcribed ([], state)
    refine ⟨hrefused, congrArg (fun outcome => outcome.state.1) hnothing, ?_⟩
    rw [minimize_of_refused hrefused f state]
  · right
    change Blames point.size failure lines at hblames
    generalize lines = lines at hblames
    cases hblames with
    | other harmless =>
        rw [hargument] at harmless
        cases harmless
    | @refusal before line refused => exact .inl ⟨before, line, rfl, refused⟩
    | @misfit before line after wrong recent =>
        exact .inr ⟨before, line, after, rfl, recent, wrong⟩

/-- The matrix of a report is finite.  It is square of the size of the point, like
all matrices before, unless the rule has made it in the last iteration. -/
theorem report_matrix_cases (solver : Solver σ α) (f : Objective σ α) (point : Array α)
    (stopping : StoppingRule α) (state : σ) (report : Report α)
    (hresult : (solver.minimize f point stopping state).result = .ok report) :
    let lines := (solver.watched f point stopping state).state.1
    report.hessian.allFinite = true ∧
    ((report.hessian.rows = point.size ∧ report.hessian.cols = point.size ∧
        Fits point.size lines) ∨
      (solver.rule ≠ none ∧
        ¬ (report.hessian.rows = point.size ∧ report.hessian.cols = point.size) ∧
        ∃ before held s y x g value, Fits point.size before ∧
          lines = before ++ [.refresh held s y (.ok (.updated report.hessian)),
            .gradient x (.ok g), .cost x (.ok value)])) := by
  intro lines
  have hends := watched_meets (run_blames solver f point stopping) rfl state
  rw [watched_result, hresult] at hends
  obtain ⟨hfinite, x, g, value, hstands⟩ := hends
  change Stands solver point.size report.hessian _ lines at hstands
  refine ⟨hfinite, ?_⟩
  generalize lines = lines at hstands
  cases hstands with
  | square shape fits => exact .inl ⟨shape.1, shape.2, fits⟩
  | @misfit before held s y ruled wrong fits =>
      exact .inr ⟨ruled, wrong, before, held, s, y, x, g, value, fits, rfl⟩

/-! ## Shapes that change during a run -/

/-- Callables that count the gradients asked for.  The third one has a component
too many. -/
def lengthening : Objective Nat Float where
  cost _ := .ofExcept (.ok 0)
  gradient _ := .of fun k => (.ok (if k < 2 then #[1] else #[1, 1]), k + 1)
  hessian _ := .ofExcept (.ok (.ofGrid (Grid.identity 1)))

theorem lengthening_run_names_a_misfit :
    ∃ failure, failure.isInvalidArgument = true ∧
      ((ofSecant 1 none).minimize lengthening #[1] ⟨0, 10⟩ 0).result = .error failure ∧
      ∃ before line after,
        ((ofSecant 1 none).watched lengthening #[1] ⟨0, 10⟩ 0).state.1 =
          before ++ line :: after ∧
        after.length ≤ 1 ∧ line.misfit? 1 = some failure := by
  obtain ⟨failure, hresult, hargument⟩ : ∃ failure,
      ((ofSecant 1 none).minimize lengthening #[1] ⟨0, 10⟩ 0).result = .error failure ∧
        failure.isInvalidArgument = true := by
    apply exists_error_of_failsWith
    decide +kernel
  refine ⟨failure, hargument, hresult, ?_⟩
  rcases argument_failure_cases (ofSecant 1 none) lengthening #[1] ⟨0, 10⟩ 0 failure hargument
    hresult with ⟨-, hnil, -⟩ | ⟨before, line, hlines, hline⟩ | hmisfit
  · have hasked : ((ofSecant 1 none).watched lengthening #[1] ⟨0, 10⟩ 0).state.1 ≠ [] := by
      rw [ne_eq, ← List.isEmpty_iff]
      decide +kernel
    exact absurd hnil hasked
  · have hanswered : ∀ line ∈ ((ofSecant 1 none).watched lengthening #[1] ⟨0, 10⟩ 0).state.1,
        line.failure?.isSome = false := by
      decide +kernel
    have hlast := hanswered line (by simp [hlines])
    rw [hline] at hlast
    cases hlast
  · exact hmisfit

theorem lengthening_run_fails_after_an_iteration :
    (∀ x k failure, ((lengthening.cost x).outcome k).1 ≠ .error failure ∧
      ((lengthening.gradient x).outcome k).1 ≠ .error failure ∧
      ((lengthening.hessian x).outcome k).1 ≠ .error failure) ∧
    let run := (ofSecant 1 none).minimize lengthening #[1] ⟨0, 10⟩ 0
    (∃ failure, run.result = .error failure ∧ failure.isInvalidArgument = true) ∧
      run.calls = ⟨0, 3, 2⟩ ∧
      ∃ event ∈ run.log.toList, event.text = "quasi-Newton iteration" := by
  refine ⟨fun x k failure => ⟨nofun, nofun, nofun⟩, ?_, ?_, ?_⟩
  · apply exists_error_of_failsWith
    decide +kernel
  · decide +kernel
  · decide +kernel

/-- A rule that makes a matrix of two columns of whatever it is given. -/
def widening : Solver Unit Float where
  step := ⟨1⟩
  rule := some ⟨"Widening", fun _ _ => .ofExcept (.ok (.updated (.ofGrid (Grid.identity 2))))⟩

theorem exists_wide_report :
    ∃ report, (widening.minimize sloping #[1] ⟨0, 1⟩ ()).result = .ok report ∧
      report.hessian.rows = 2 ∧ report.hessian.cols = 2 := by
  have hwide : (widening.minimize sloping #[1] ⟨0, 1⟩ ()).result.toOption.any
      (fun report => decide (report.hessian.rows = 2 ∧ report.hessian.cols = 2)) = true := by
    decide +kernel
  obtain ⟨report, hreport, htest⟩ := exists_ok_of_any hwide
  exact ⟨report, hreport, of_decide_eq_true htest⟩

theorem widening_run_ends_with_a_refreshment :
    ∃ report before held s y x g value,
      (widening.minimize sloping #[1] ⟨0, 1⟩ ()).result = .ok report ∧
      Fits 1 before ∧ (widening.watched sloping #[1] ⟨0, 1⟩ ()).state.1 =
        before ++ [.refresh held s y (.ok (.updated report.hessian)), .gradient x (.ok g),
          .cost x (.ok value)] := by
  obtain ⟨report, hresult, hrows, -⟩ := exists_wide_report
  obtain ⟨-, ⟨hsquare, -, -⟩ | ⟨-, -, before, held, s, y, x, g, value, hlines⟩⟩ :=
    report_matrix_cases widening sloping #[1] ⟨0, 1⟩ () report hresult
  · rw [hrows] at hsquare
    cases hsquare
  · exact ⟨report, before, held, s, y, x, g, value, hresult, hlines⟩

theorem widening_run_reports_a_wide_matrix :
    ∃ report, (widening.minimize sloping #[1] ⟨0, 1⟩ ()).result = .ok report ∧
      ¬ (report.hessian.rows = 1 ∧ report.hessian.cols = 1) := by
  obtain ⟨report, hresult, hrows, -⟩ := exists_wide_report
  refine ⟨report, hresult, fun hsquare => ?_⟩
  rw [hrows] at hsquare
  cases hsquare.1

end Solver

end SecantDescent
