import SecantDescent.Proofs.Run.Numbers
import SecantDescent.Proofs.Run.Policies
import SecantDescent.Proofs.Run.Schedule

/-!
# The log of a run

The log opens with the method.  Every iteration leaves one entry in it, with its
number and the norm of the gradient it came to, and before this entry a second
one if the update was skipped.  A run with a report closes the log with a last
entry, a run that fails does not.
-/

namespace SecantDescent

open Eval

variable {σ α β : Type} {n : Nat}

def Event.iteration? : Event α → Option Nat
  | .iteration k _ => some k
  | _ => none

def Call.isRefresh : Call α → Bool
  | .refresh .. => true
  | _ => false

theorem Performs.calls_begin {value : β} {result : Except (Failure α) β}
    {lines schedule : Transcript α} (h : Performs value result lines schedule) :
    lines.map Exchange.call <+: schedule.map Exchange.call := by
  cases h with
  | whole => exact List.prefix_refl _
  | broken h => exact h.calls_begin

namespace Solver

variable {solver : Solver σ α} {calls lines : Transcript α} {notes : List (Event α)}

/-! ## Notes on calls -/

/-- What the log says of a call. -/
def note? (solver : Solver σ α) : Exchange α → Option (Event α)
  | .refresh _ _ _ (.ok (.skipped degeneracy)) =>
      some (.skippedUpdate solver.name degeneracy.quantity degeneracy.value)
  | _ => none

/-- What the log says of the calls of one iteration: that the update was skipped,
or nothing. -/
inductive Noted (solver : Solver σ α) (calls : Transcript α) : List (Event α) → Prop
  | nothing (unskipped : ∀ held s y degeneracy,
      .refresh held s y (.ok (.skipped degeneracy)) ∉ calls) : Noted solver calls []
  | skipped {held s y degeneracy} (ruled : solver.rule ≠ none)
      (asked : .refresh held s y (.ok (.skipped degeneracy)) ∈ calls) :
      Noted solver calls [.skippedUpdate solver.name degeneracy.quantity degeneracy.value]

theorem Noted.iteration? (h : Noted solver calls notes) :
    notes.filterMap Event.iteration? = [] := by
  cases h with
  | nothing unskipped => rfl
  | skipped ruled asked => rfl

theorem exists_skipped_of_note {line : Exchange α} {event : Event α}
    (h : solver.note? line = some event) :
    ∃ held s y degeneracy, line = .refresh held s y (.ok (.skipped degeneracy)) ∧
      event = .skippedUpdate solver.name degeneracy.quantity degeneracy.value := by
  unfold note? at h
  split at h
  next held s y degeneracy =>
    cases h
    exact ⟨held, s, y, degeneracy, rfl, rfl⟩
  next => cases h

theorem length_notes_le (solver : Solver σ α) (lines : Transcript α) :
    (lines.filterMap solver.note?).length ≤
      (lines.map Exchange.call).countP Call.isRefresh := by
  rw [List.length_filterMap_eq_countP, List.countP_map]
  apply List.countP_mono_left
  intro line _ hnoted
  cases line with
  | refresh held s y answer => rfl
  | _ => cases hnoted

theorem noted_of_count_le (hcount : (lines.map Exchange.call).countP Call.isRefresh ≤ 1)
    (hunruled : solver.rule = none → (lines.map Exchange.call).countP Call.isRefresh = 0) :
    Noted solver lines (lines.filterMap solver.note?) := by
  have hlength := length_notes_le solver lines
  cases hnotes : lines.filterMap solver.note? with
  | nil =>
      apply Noted.nothing
      intro held s y degeneracy hskipped
      cases List.filterMap_eq_nil_iff.mp hnotes _ hskipped
  | cons event rest =>
      have hmem : event ∈ lines.filterMap solver.note? := by
        simp [hnotes]
      obtain ⟨line, hline, hnote⟩ := List.mem_filterMap.mp hmem
      obtain ⟨held, s, y, degeneracy, rfl, rfl⟩ := exists_skipped_of_note hnote
      rw [hnotes, List.length_cons] at hlength
      -- A second note would need a second refreshment.
      have hlast : rest = [] := by
        apply List.eq_nil_of_length_eq_zero
        omega
      have hruled : solver.rule ≠ none := by
        intro hnone
        have hzero := hunruled hnone
        omega
      rw [hlast]
      exact .skipped hruled hline

/-! ## Logs that keep up with the calls -/

/-- No call was made that the log has to tell of. -/
inductive Quiet (solver : Solver σ α) (state after : Tally × Transcript α × σ) : Prop
  | mk (lines : Transcript α)
      (asked : Objective.underTally after = Objective.underTally state ++ lines)
      (silent : lines.filterMap solver.note? = [])

/-- The log has grown by the notes on the calls that were made. -/
inductive Logged (solver : Solver σ α) (session after : Session (Transcript α × σ) α) : Prop
  | mk (lines : Transcript α) (asked : transcript after = transcript session ++ lines)
      (told : after.1.toList = session.1.toList ++ lines.filterMap solver.note?)

instance (solver : Solver σ α) : Std.Refl (Quiet solver) where
  refl _ := ⟨[], (List.append_nil _).symm, rfl⟩

instance (solver : Solver σ α) : Trans (Quiet solver) (Quiet solver) (Quiet solver) where
  trans h h' := by
    obtain ⟨lines, asked, silent⟩ := h
    obtain ⟨lines', asked', silent'⟩ := h'
    refine ⟨lines ++ lines', ?_, ?_⟩
    · rw [asked', asked, List.append_assoc]
    · rw [List.filterMap_append, silent, silent', List.append_nil]

instance (solver : Solver σ α) : Std.Refl (Logged solver) where
  refl _ := ⟨[], (List.append_nil _).symm, (List.append_nil _).symm⟩

instance (solver : Solver σ α) : Trans (Logged solver) (Logged solver) (Logged solver) where
  trans h h' := by
    obtain ⟨lines, asked, told⟩ := h
    obtain ⟨lines', asked', told'⟩ := h'
    refine ⟨lines ++ lines', ?_, ?_⟩
    · rw [asked', asked, List.append_assoc]
    · rw [told', told, List.filterMap_append, List.append_assoc]

theorem logged_of_quiet {act : Eval (Tally × Transcript α × σ) α β}
    (h : Goes (Quiet solver) act) :
    Goes (Logged solver) (act.beneath : Eval (Session (Transcript α × σ) α) α β) := by
  apply h.beneath
  rintro session below ⟨lines, asked, silent⟩
  refine ⟨lines, asked, ?_⟩
  rw [silent, List.append_nil]

theorem quiet_of_puts {line : Except (Failure α) β → Exchange α}
    {act : Eval (Tally × Transcript α × σ) α β} (h : Puts Objective.underTally line act)
    (hsilent : ∀ answer, solver.note? (line answer) = none) : Goes (Quiet solver) act where
  outcome state := by
    refine ⟨_, h.put state, ?_⟩
    simp [hsilent]

theorem gradient_quiet (solver : Solver σ α) (f : Objective σ α) (x : Array α) :
    Goes (Quiet solver) (f.transcribed.counted.gradient x) :=
  quiet_of_puts (f.gradient_puts x) fun _ => rfl

theorem hessian_quiet (solver : Solver σ α) (f : Objective σ α) (x : Array α) :
    Goes (Quiet solver) (f.transcribed.counted.hessian x) :=
  quiet_of_puts (f.hessian_puts x) fun _ => rfl

/-! ## The parts of a run -/

variable [Scalar α]

theorem gradientAt_logged (f : Objective σ α) (x : Vector α n) (k : Nat) :
    Goes (Logged solver) (gradientAt f.transcribed x k) :=
  (logged_of_quiet (gradient_quiet solver f x.toArray)).bind fun _ => .ofExcept _

theorem hessianAt_logged (f : Objective σ α) (x : Vector α n) (k : Nat) :
    Goes (Logged solver) (hessianAt f.transcribed x k) := by
  refine (logged_of_quiet (hessian_quiet solver f x.toArray)).bind fun answer => ?_
  exact .bind (.ofExcept _) fun _ => .pure answer

/-- Between the refreshment and its adoption the log is behind the calls. -/
theorem adopted_logged (step : StepRule α) (rule : UpdateRule σ α) (held : DenseMatrix α)
    (pair : SecantPair α) (k : Nat) :
    Goes (Logged (⟨step, some rule⟩ : Solver σ α))
      ((rule.transcribed.beneath.refresh held pair).beneath >>= adopt rule.name held k) where
  outcome session := by
    have hput := (rule.refresh_puts held pair).put session.2
    rw [outcome_bind, outcome_beneath]
    rcases hrefresh : (rule.transcribed.beneath.refresh held pair).outcome session.2 with
      ⟨failure | refresh, below⟩
    · rw [hrefresh] at hput
      exact ⟨_, hput, (List.append_nil _).symm⟩
    · rw [hrefresh] at hput
      simp only [outcome_adopt]
      cases refresh with
      | updated B => exact ⟨_, hput, (List.append_nil _).symm⟩
      | skipped degeneracy => exact ⟨_, hput, Array.toList_push⟩

theorem matrixAfter_logged (solver : Solver σ α) (f : Objective σ α) (held : DenseMatrix α)
    (x x' : Vector α n) (k : Nat) :
    Goes (Logged solver) (solver.transcribed.matrixAfter f.transcribed held x x' k) := by
  obtain ⟨step, rule⟩ := solver
  cases rule with
  | none => exact .pure held
  | some rule =>
      have hpair := between_goes (gradient_quiet ⟨step, some rule⟩ f) x.toArray x'.toArray
      change Goes _ ((rule.transcribed.beneath.advance f.transcribed.counted held x.toArray
        x'.toArray).beneath >>= adopt rule.name held k)
      rw [UpdateRule.advance, beneath_bind, bind_assoc]
      exact (logged_of_quiet hpair).bind fun pair => adopted_logged step rule held pair k

theorem advance_logged (solver : Solver σ α) (f : Objective σ α) (iterate : Iterate α n) :
    Goes (Logged solver) (solver.transcribed.advance f.transcribed iterate) := by
  simp only [advance, ExceptT.bind_throw]
  refine .bind (.ite (hessianAt_logged f _ _) (.pure _)) fun held => ?_
  refine .bind (.ofExcept _) fun direction => .ite (.throw _) ?_
  refine (matrixAfter_logged solver f held _ _ _).bind fun B => ?_
  exact (gradientAt_logged f _ _).bind fun gradient => .pure _

theorem Round.count {iterate next : Iterate α n} (h : solver.Round iterate calls next) :
    next.count = iterate.count + 1 := by
  cases h <;> rfl

theorem Round.count_refresh {iterate next : Iterate α n}
    (h : solver.Round iterate calls next) :
    (calls.map Exchange.call).countP Call.isRefresh ≤ 1 ∧
      (solver.rule = none → (calls.map Exchange.call).countP Call.isRefresh = 0) := by
  cases h with
  | opening unruled first moves => simp [Exchange.call, Call.isRefresh]
  | newton unruled later moves => simp [Exchange.call, Call.isRefresh]
  | secant ruled moves => simp [Exchange.call, Call.isRefresh, ruled, List.countP_cons]

/-- An iteration notes at most one skipped update, also when it is broken off. -/
theorem advance_noted (solver : Solver σ α) (f : Objective σ α) (iterate : Iterate α n)
    (session : Session (Transcript α × σ) α) :
    let ended := (solver.transcribed.advance f.transcribed iterate).outcome session
    ∃ calls notes, Noted solver calls notes ∧
      transcript ended.2 = transcript session ++ calls ∧
      ended.2.1.toList = session.1.toList ++ notes ∧
      ∀ next, ended.1 = .ok next → solver.Round iterate calls next := by
  intro ended
  obtain ⟨lines, schedule, value, hround, -, hlines, hperforms⟩ :=
    advance_asks solver f iterate session
  obtain ⟨lines', asked, told⟩ := (advance_logged solver f iterate).outcome session
  obtain rfl : lines' = lines := List.append_cancel_left (asked.symm.trans hlines)
  obtain ⟨hcount, hunruled⟩ := hround.count_refresh
  -- An iteration that is broken off asked an initial part of what a whole one asks.
  have hbegin := hperforms.calls_begin.sublist
  refine ⟨lines', _, noted_of_count_le ?_ ?_, asked, told, ?_⟩
  · exact Nat.le_trans hbegin.countP_le hcount
  · intro hnone
    exact Nat.le_zero.mp (Nat.le_trans hbegin.countP_le (Nat.le_of_eq (hunruled hnone)))
  · intro next hnext
    change ended.1 = .ok next at hnext
    change Performs value ended.1 lines' schedule at hperforms
    rw [hnext] at hperforms
    cases hperforms
    exact hround

/-! ## The diary of a run -/

/-- The calls and the log of a run up to an iterate. -/
inductive Diary (solver : Solver σ α) (point : Array α) :
    Iterate α point.size → Transcript α → List (Event α) → Prop
  | start {first} (count : first.count = 0) (start : first.point = point.toVector) :
      Diary solver point first
        [.gradient point (.ok first.gradient.toArray), .hessian point (.ok first.hessian)]
        [.started solver.name]
  | round {iterate next lines log calls notes} (earlier : Diary solver point iterate lines log)
      (here : solver.Round iterate calls next) (noted : Noted solver calls notes) :
      Diary solver point next (lines ++ calls)
        (log ++ notes ++
          [.iteration next.count (Scalar.largestMagnitude next.gradient.toList)])

/-- The iterations are numbered from one on. -/
theorem Diary.iterations {point : Array α} {last : Iterate α point.size} {log : List (Event α)}
    (h : Diary solver point last lines log) :
    log.filterMap Event.iteration? = List.range' 1 last.count := by
  induction h with
  | start count start => simp [count, Event.iteration?]
  | round earlier here noted ih =>
      simp [ih, noted.iteration?, here.count, Event.iteration?, List.range'_1_concat,
        Nat.add_comm]

theorem enter_log (solver : Solver σ α) (f : Objective σ α) (point : Array α)
    (stopping : StoppingRule α) (state : σ) :
    ((solver.enter f point stopping).outcome (#[], {}, state)).2.1 =
      #[.started solver.name] := by
  have hquiet : Goes (Onward (fun _ => False) fun _ => ([] : List Unit))
      (initialIterate f point.toVector) := initialIterate_goes f.grows_nothing _
  rw [outcome_enter]
  split
  · rfl
  · exact (hquiet.outcome _).log_eq

variable {f : Objective σ α} {point : Array α} {stopping : StoppingRule α} {state : σ}

theorem diary_of_enter {first : Iterate α point.size} {session : Session (Transcript α × σ) α}
    (h : (solver.transcribed.enter f.transcribed point stopping).outcome
      (#[], {}, ([], state)) = (.ok first, session)) :
    Diary solver point first (transcript session) session.1.toList := by
  obtain ⟨lines, schedule, value, ⟨hcount, hpoint, rfl⟩, -, hlines, hperforms⟩ :=
    enter_asks solver f point stopping (#[], {}, ([], state))
  have hlog := enter_log solver.transcribed f.transcribed point stopping ([], state)
  rw [h] at hlines hperforms hlog
  cases hperforms
  change transcript session = _ at hlines
  change session.1 = _ at hlog
  rw [hlines, hlog, (transcribed_follows solver).name]
  exact .start hcount hpoint

theorem Diary.iteration {iterate next : Iterate α point.size}
    {session after : Session (Transcript α × σ) α}
    (hdiary : Diary solver point iterate (transcript session) session.1.toList)
    (h : (solver.transcribed.iteration f.transcribed iterate).outcome session =
      (.ok next, after)) :
    Diary solver point next (transcript after) after.1.toList := by
  obtain ⟨middle, hadvance, rfl⟩ := iteration_eq_ok_iff.mp h
  obtain ⟨calls, notes, hnoted, asked, told, hround⟩ := advance_noted solver f iterate session
  rw [hadvance] at asked told hround
  change transcript middle = _ at asked
  rw [show transcript _ = transcript middle from rfl, asked, Array.toList_push, told]
  exact .round hdiary (hround next rfl) hnoted

theorem AtHead.diary {iterate : Iterate α point.size} {session : Session (Transcript α × σ) α}
    (head :
      AtHead solver.transcribed f.transcribed point stopping ([], state) iterate session) :
    Diary solver point iterate (transcript session) session.1.toList := by
  induction head with
  | first entered unmet => exact diary_of_enter entered
  | next head room iterated unmet ih => exact ih.iteration iterated

theorem Finishes.diary {iterate : Iterate α point.size}
    {session : Session (Transcript α × σ) α} {ending : Ending}
    (finish :
      Finishes solver.transcribed f.transcribed point stopping ([], state) iterate session
      ending) :
    Diary solver point iterate (transcript session) session.1.toList := by
  cases finish with
  | atOnce entered met => exact diary_of_enter entered
  | converged head room iterated met => exact head.diary.iteration iterated
  | exhausted head spent => exact head.diary

/-! ## The last entry -/

/-- The entry that closes the log belongs to the report. -/
inductive Closes (stopping : StoppingRule α) (report : Report α) : Event α → Prop
  | atOnce (ending : report.ending = .converged) (count : report.iterations = 0) :
      Closes stopping report (.alreadyConverged report.value)
  | converged (ending : report.ending = .converged) (count : 0 < report.iterations) :
      Closes stopping report (.converged report.iterations report.value report.gradientNorm)
  | exhausted (ending : report.ending = .maxIterations) (count : 0 < report.iterations)
      (spent : report.iterations = stopping.maxIterations.toNat) :
      Closes stopping report
        (.exhausted report.iterations report.value report.gradientNorm stopping.tolerance)

theorem Finishes.closes {f : Objective σ α} {iterate : Iterate α point.size}
    {session : Session σ α} {state : σ} {ending : Ending}
    (finish : Finishes solver f point stopping state iterate session ending) (value : α)
    (calls : Tally) :
    Closes stopping
      ((Report.of iterate.point.toArray value iterate.gradient.toArray iterate.hessian
        iterate.count ending).withEvaluations calls)
      (lastEvent stopping iterate value ending) := by
  cases finish with
  | atOnce entered met =>
      have hcount : iterate.count = 0 := (enter_eq_ok_iff.mp entered).2.1
      rw [lastEvent, if_pos hcount]
      exact .atOnce rfl hcount
  | converged head room iterated met =>
      have hcount := iteration_count iterated
      rw [lastEvent, if_neg (by omega)]
      exact .converged rfl (Nat.lt_of_lt_of_eq (Nat.succ_pos _) hcount.symm)
  | exhausted head spent =>
      have hbudget := toNat_pos (StoppingRule.validate_eq_ok_iff.mp head.validated.1).2.2
      rw [← spent] at hbudget
      rw [lastEvent, ← spent]
      exact .exhausted rfl hbudget spent

omit [Scalar α] in
theorem costAt_transcript {f : Objective σ α} {x : Vector α n} {result : Except (Failure α) α}
    {session after : Session (Transcript α × σ) α}
    (h : (costAt f.transcribed x).outcome session = (result, after)) :
    transcript after = transcript session ++ [.cost x.toArray result] := by
  cases h
  rfl

/-! ## Whole runs -/

section

variable {solver : Solver σ α} {point : Array α} {stopping : StoppingRule α} {state : σ}
variable {session after : Session (Transcript α × σ) α} {failure : Failure α}

theorem diary_of_report {report : Report α}
    (h : (solver.transcribed.run f.transcribed point stopping).outcome (#[], {}, ([], state)) =
      (.ok report, after)) :
    ∃ last lines log value event, Diary solver point last lines log ∧
      transcript after = lines ++ [.cost last.point.toArray (.ok value)] ∧
      after.1.toList = log ++ [event] ∧
      report.iterations = last.count ∧ Closes stopping report event := by
  rcases run_ends solver.transcribed f.transcribed point stopping ([], state) with
    ⟨failure, broken, hbreaks⟩ | ⟨last, session, ending, hfinish⟩
  · rw [hbreaks.outcome_run] at h
    cases h
  · rw [hfinish.outcome_run] at h
    obtain ⟨value, middle, hcost, rfl, rfl⟩ := conclude_eq_ok_iff.mp h
    have hasked := costAt_transcript hcost
    refine ⟨last, _, _, value, _, hfinish.diary, hasked, ?_, rfl,
      hfinish.closes value middle.2.1⟩
    rw [Array.toList_push, costAt_log hcost]

theorem diary_of_failure (hf : f.Unnumbered)
    (hsolver : ∀ rule, solver.transcribed.rule = some rule → rule.Unnumbered)
    (h : (solver.transcribed.run f.transcribed point stopping).outcome (#[], {}, ([], state)) =
      (.error failure, after)) :
    (after.1.toList = [.started solver.name] ∧ failure.TellsOf 0) ∨
      ∃ last lines log calls notes, Diary solver point last lines log ∧
        Noted solver calls notes ∧ transcript after = lines ++ calls ∧
        after.1.toList = log ++ notes ∧
        ∀ j, failure.iteration? = some j →
          j = last.count + 1 ∧ j ≤ stopping.maxIterations.toNat := by
  rcases run_ends solver.transcribed f.transcribed point stopping ([], state) with
    ⟨failure', broken, hbreaks⟩ | ⟨last, session, ending, hfinish⟩
  · rw [hbreaks.outcome_run] at h
    cases h
    cases hbreaks with
    | entering entered =>
        have hlog := enter_log solver.transcribed f.transcribed point stopping ([], state)
        rw [entered, (transcribed_follows solver).name] at hlog
        exact .inl ⟨congrArg Array.toList hlog, enter_tells hf.transcribed entered⟩
    | @iterating last session _ _ head room iterated =>
        have hadvance := iteration_eq_error_iff.mp iterated
        obtain ⟨calls, notes, hnoted, asked, told, -⟩ := advance_noted solver f last session
        rw [hadvance] at asked told
        refine .inr ⟨last, _, _, calls, notes, head.diary, hnoted, asked, told, fun j hj => ?_⟩
        obtain rfl := advance_tells hf.transcribed hsolver hadvance j hj
        exact ⟨rfl, room⟩
  · -- Without a value there is no last entry.
    rw [hfinish.outcome_run] at h
    have hcost := conclude_eq_error_iff.mp h
    have hunnumbered : failure.iteration? = none :=
      hf.transcribed.cost _ _ _ (congrArg Prod.fst (costAt_eq_error hcost))
    refine .inr ⟨last, _, _, _, [], hfinish.diary, ?_, costAt_transcript hcost, ?_, ?_⟩
    · exact .nothing (by simp)
    · rw [costAt_log hcost, List.append_nil]
    · rw [hunnumbered]
      nofun

end

/-- The log of a run tells of its iterations in their order, the skipped updates
among them.  A report is announced by one last entry.  After a failure the log ends
with the last iteration that was finished, or with an update skipped in the one that
was not, and this is the iteration a failure tells of. -/
theorem run_keeps_diary (f : Objective σ α) (hf : f.Unnumbered) (stepLength : α)
    (method : Option (SecantRule × Safeguard α)) (point : Array α) (stopping : StoppingRule α)
    (state : σ) :
    let solver : Solver σ α := ofSecant stepLength method
    let run := solver.watched f point stopping state
    run.result = (solver.minimize f point stopping state).result ∧
    run.log = (solver.minimize f point stopping state).log ∧
    (∀ last lines log, Diary solver point last lines log →
      log.filterMap Event.iteration? = List.range' 1 last.count) ∧
    (∀ report, run.result = .ok report →
      ∃ last lines log value event, Diary solver point last lines log ∧
        run.state.1 = lines ++ [.cost last.point.toArray (.ok value)] ∧
        run.log.toList = log ++ [event] ∧
        report.iterations = last.count ∧ Closes stopping report event) ∧
    ∀ failure, run.result = .error failure →
      (run.log.toList = [.started solver.name] ∧ failure.TellsOf 0) ∨
      ∃ last lines log calls notes, Diary solver point last lines log ∧
        Noted solver calls notes ∧ run.state.1 = lines ++ calls ∧
        run.log.toList = log ++ notes ∧
        ∀ j, failure.iteration? = some j →
          j = last.count + 1 ∧ j ≤ stopping.maxIterations.toNat := by
  intro solver run
  have hplain :=
    minimize_follows solver.transcribed_follows f.transcribed_follows point stopping
    ([], state)
  refine ⟨watched_result solver f point stopping state,
    (congrArg Outcome.log hplain).symm, fun _ _ _ => Diary.iterations, ?_, ?_⟩
  · intro report hreport
    exact diary_of_report (Prod.ext hreport rfl)
  · intro failure hfailure
    refine diary_of_failure hf ?_ (Prod.ext hfailure rfl)
    intro rule hrule
    obtain ⟨rule, hruled, rfl⟩ := Option.map_eq_some_iff.mp hrule
    obtain ⟨secant, safeguard, rfl⟩ := rule_ofSecant hruled
    exact (secant.toUpdateRule_unnumbered safeguard).transcribed

theorem sloping_unnumbered : sloping.Unnumbered :=
  ⟨fun _ => nofun, fun _ => nofun, fun _ => nofun⟩

theorem sloping_run_keeps_diary :
    sloping.Unnumbered ∧
      let run := (ofSecant 1 (some (.bfgs, ⟨.skip, 0⟩))).watched sloping #[1] ⟨0, 3⟩ ()
      run.log.size = 8 ∧ ∃ report last lines log event, run.result = .ok report ∧
        Diary (ofSecant 1 (some (.bfgs, ⟨.skip, 0⟩)) : Solver Unit Float) #[1] last lines log ∧
        run.log.toList = log ++ [event] ∧ report.iterations = last.count ∧
        Closes ⟨0, 3⟩ report event := by
  refine ⟨sloping_unnumbered, ?_⟩
  intro run
  obtain ⟨report, hreport⟩ : ∃ report, run.result = .ok report := by
    apply exists_of_isOk
    decide +kernel
  obtain ⟨last, lines, log, value, event, hdiary, -, hlog, hcount, hcloses⟩ :=
    (run_keeps_diary sloping sloping_unnumbered 1 (some (.bfgs, ⟨.skip, 0⟩)) #[1] ⟨0, 3⟩
      ()).2.2.2.1 report hreport
  refine ⟨?_, report, last, lines, log, event, hreport, hdiary, hlog, hcount, hcloses⟩
  decide +kernel

end Solver

end SecantDescent
