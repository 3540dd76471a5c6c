import SecantDescent.Proofs.Run.Checked
import SecantDescent.Proofs.Secant.NonFinite

/-!
# The secant pairs of a run

A rule is called right after the two gradients that its pair is made of.  They are
not checked for being finite, whatever the callables are; but a pair with a gradient
that is not finite is degenerate, so no matrix of a run is made of such a pair.
-/

namespace SecantDescent

open Eval Solver

variable {σ ω α β : Type} [Scalar α] {n : Nat}

/-- Each call of the rule comes after the two gradients of its pair, and its answer is
that to a degenerate update if one of these is not finite. -/
def JudgesPairs (method : Option (SecantRule × Safeguard α)) (n : Nat)
    (lines : Transcript α) : Prop :=
  ∀ before held s y answer after, lines = before ++ .refresh held s y answer :: after →
    ∃ rule safeguard earlier x x' g g', method = some (rule, safeguard) ∧
      before = earlier ++ [.gradient x (.ok g), .gradient x' (.ok g')] ∧
      g.size = n ∧ g'.size = n ∧ y = g'.zipWith (· - ·) g ∧
      (Scalar.allFinite g.toList = false ∨ Scalar.allFinite g'.toList = false →
        rule.AnswersDegenerate safeguard answer)

namespace JudgesPairs

variable {method : Option (SecantRule × Safeguard α)} {lines : Transcript α}

theorem nil : JudgesPairs method n [] := by
  intro before held s y answer after hlines
  simp at hlines

theorem append (h : JudgesPairs method n lines) {line : Exchange α}
    (hline : ∀ held s y answer, line ≠ .refresh held s y answer) :
    JudgesPairs method n (lines ++ [line]) := by
  intro before held s y answer after hlines
  rcases append_singleton_cases hlines with ⟨-, -, hlast⟩ | ⟨rest, hrest⟩
  · exact absurd hlast.symm (hline held s y answer)
  · exact h _ _ _ _ _ _ hrest

theorem append_refresh {rule : SecantRule} {safeguard : Safeguard α} {x x' g g' s : Array α}
    {held : DenseMatrix α} {answer : Except (Failure α) (Refresh α)}
    (h : JudgesPairs (some (rule, safeguard)) n lines) (hg : g.size = n) (hg' : g'.size = n)
    (hanswer : Scalar.allFinite g.toList = false ∨ Scalar.allFinite g'.toList = false →
      rule.AnswersDegenerate safeguard answer) :
    JudgesPairs (some (rule, safeguard)) n
      (((lines ++ [.gradient x (.ok g)]) ++ [.gradient x' (.ok g')]) ++
        [.refresh held s (g'.zipWith (· - ·) g) answer]) := by
  have hpair : JudgesPairs (some (rule, safeguard)) n
      ((lines ++ [.gradient x (.ok g)]) ++ [.gradient x' (.ok g')]) := by
    apply (h.append ?_).append
    · nofun
    · nofun
  intro before held' s' y' answer' after hlines
  rcases append_singleton_cases hlines with ⟨-, rfl, hlast⟩ | ⟨rest, hrest⟩
  · cases hlast
    exact ⟨rule, safeguard, lines, x, x', g, g', rfl, by simp, hg, hg', rfl, hanswer⟩
  · exact hpair _ _ _ _ _ _ hrest

end JudgesPairs

namespace Solver

variable {method : Option (SecantRule × Safeguard α)} {stepLength : α}

/-- A call of one of the three callables changes nothing about the pairs. -/
theorem Puts.judgesPairs {record : ω → Transcript α}
    {line : Except (Failure α) β → Exchange α} {act : Eval ω α β} (h : Puts record line act)
    (hline : ∀ result held s y answer, line result ≠ .refresh held s y answer) :
    Meets record (JudgesPairs method n) act (fun _ => JudgesPairs method n)
      (fun _ => JudgesPairs method n) := by
  apply (h.meets (JudgesPairs method n)).mono
  · rintro result _ ⟨lines, hjudged, rfl⟩
    exact hjudged.append (hline _)
  · rintro failure _ ⟨lines, hjudged, rfl⟩
    exact hjudged.append (hline _)

theorem gradientAt_judgesPairs (f : Objective σ α) (x : Vector α n) (k : Nat) :
    Meets transcript (JudgesPairs method n) (gradientAt f.transcribed x k)
      (fun _ => JudgesPairs method n) (fun _ => JudgesPairs method n) := by
  apply (Puts.judgesPairs (f.gradient_puts x.toArray).beneath nofun).bind
  intro answer
  exact .checked _ fun _ _ h => h

theorem hessianAt_judgesPairs (f : Objective σ α) (x : Vector α n) (k : Nat) :
    Meets transcript (JudgesPairs method n) (hessianAt f.transcribed x k)
      (fun B lines => B.FiniteSquare n ∧ JudgesPairs method n lines)
      (fun _ => JudgesPairs method n) := by
  apply (hessianAt_meets f x k (JudgesPairs method n)).mono
  · rintro B _ ⟨hsquare, lines, hjudged, rfl⟩
    exact ⟨hsquare, hjudged.append (by nofun)⟩
  · rintro failure _ ⟨answer, ⟨lines, hjudged, rfl⟩, -⟩
    exact hjudged.append (by nofun)

/-- The last two calls are for the gradients that the pair has the difference of. -/
def EndsWithPair (method : Option (SecantRule × Safeguard α)) (n : Nat)
    (pair : SecantPair α) (lines : Transcript α) : Prop :=
  ∃ earlier x x' g g',
    JudgesPairs method n earlier ∧ g.size = n ∧ g'.size = n ∧
      pair.y = g'.zipWith (· - ·) g ∧
      lines = (earlier ++ [.gradient x (.ok g)]) ++ [.gradient x' (.ok g')]

theorem between_judgesPairs (f : Objective σ α) (x x' : Vector α n) :
    Meets Objective.underTally (JudgesPairs method n)
      (SecantPair.between f.transcribed.counted x.toArray x'.toArray)
      (fun pair lines => (pair.s.size = n ∧ pair.y.size = n) ∧
        EndsWithPair method n pair lines)
      (fun _ => JudgesPairs method n) := by
  apply (between_meets f x x' (JudgesPairs method n)).mono
  · rintro pair _ ⟨hsizes, g, g', ⟨-, -, hg, hg', hchange⟩, _, ⟨earlier, hjudged, rfl⟩, rfl⟩
    exact ⟨hsizes, earlier, _, _, g, g', hjudged, hg, hg', hchange, rfl⟩
  · rintro failure _
      (⟨lines, hjudged, rfl⟩ | ⟨g, answer, -, -, _, ⟨lines, hjudged, rfl⟩, rfl⟩)
    · exact hjudged.append (by nofun)
    · exact (hjudged.append (by nofun)).append (by nofun)

theorem refresh_judgesPairs [ExtendedSub α] (rule : SecantRule) (safeguard : Safeguard α)
    {held : DenseMatrix α} (hsquare : held.FiniteSquare n) (pair : SecantPair α) :
    Meets Objective.underTally
      (fun lines => (pair.s.size = n ∧ pair.y.size = n) ∧
        EndsWithPair (some (rule, safeguard)) n pair lines)
      ((rule.toUpdateRule safeguard : UpdateRule σ α).transcribed.beneath.refresh held pair)
      (fun refresh lines =>
        ((refresh.matrix held).rows = n ∧ (refresh.matrix held).cols = n) ∧
        JudgesPairs (some (rule, safeguard)) n lines)
      (fun _ => JudgesPairs (some (rule, safeguard)) n) := by
  apply Meets.of_fact
  rintro ⟨hs, hy⟩
  have hjudges {answer : Except (Failure α) (Refresh α)} {lines : Transcript α}
      (hanswer : rule.refresh safeguard held pair = answer)
      (hlines : After (EndsWithPair (some (rule, safeguard)) n pair)
        (.refresh held pair.s pair.y answer) lines) :
      JudgesPairs (some (rule, safeguard)) n lines := by
    obtain ⟨_, ⟨earlier, x, x', g, g', hjudged, hg, hg', hchange, rfl⟩, rfl⟩ := hlines
    rw [hchange]
    refine hjudged.append_refresh hg hg' fun hgradients => ?_
    rw [← hanswer]
    apply SecantRule.answersDegenerate_of_not_finite hsquare.rows hsquare.cols hs hy
    rw [hchange]
    apply Bool.eq_false_iff.mpr
    intro hfinite
    obtain ⟨hfirst, hsecond⟩ := finite_of_difference hg' hg hfinite
    rcases hgradients with hnotFinite | hnotFinite
    · exact Bool.eq_false_iff.mp hnotFinite hsecond
    · exact Bool.eq_false_iff.mp hnotFinite hfirst
  apply (((rule.toUpdateRule safeguard).refresh_puts held pair).meets _).with_result.mono
  · rintro refresh lines ⟨⟨state, hresult⟩, hlines⟩
    have hrefresh : rule.refresh safeguard held pair = .ok refresh := hresult
    exact ⟨SecantRule.shape_of_refresh hsquare.rows hsquare.cols hs hy hrefresh,
      hjudges hrefresh hlines⟩
  · rintro failure lines ⟨⟨state, hresult⟩, hlines⟩
    exact hjudges hresult hlines

theorem matrixAfter_judgesPairs [ExtendedSub α] (f : Objective σ α) {held : DenseMatrix α}
    (hsquare : held.FiniteSquare n) (x x' : Vector α n) (k : Nat) :
    Meets transcript (JudgesPairs method n)
      ((ofSecant stepLength method).transcribed.matrixAfter f.transcribed held x x' k)
      (fun B lines => B.FiniteSquare n ∧ JudgesPairs method n lines)
      (fun _ => JudgesPairs method n) := by
  cases method with
  | none => exact .pure fun _ hjudged => ⟨hsquare, hjudged⟩
  | some safeguarded =>
      obtain ⟨rule, safeguard⟩ := safeguarded
      have hadvance := (between_judgesPairs f x x').bind
        (refresh_judgesPairs rule safeguard hsquare)
      apply hadvance.beneath.bind
      intro refresh
      apply Meets.of_fact
      rintro ⟨hrows, hcols⟩
      have hadopt : Meets transcript (JudgesPairs (some (rule, safeguard)) n)
          (adopt rule.name held k refresh : Eval (Session (Transcript α × σ) α) α _)
          (fun B lines => (B = refresh.matrix held ∧ B.allFinite = true) ∧
            JudgesPairs (some (rule, safeguard)) n lines)
          (fun _ => JudgesPairs (some (rule, safeguard)) n) :=
        adopt_meets rule.name held k refresh fun _ h => h
      apply hadopt.mono
      · rintro B lines ⟨⟨rfl, hfinite⟩, hjudged⟩
        exact ⟨⟨hrows, hcols, hfinite⟩, hjudged⟩
      · exact fun _ _ h => h

theorem advance_judgesPairs [ExtendedSub α] (f : Objective σ α) (iterate : Iterate α n) :
    Meets transcript
      (fun lines => iterate.hessian.FiniteSquare n ∧ JudgesPairs method n lines)
      ((ofSecant stepLength method).transcribed.advance f.transcribed iterate)
      (fun next lines => next.hessian.FiniteSquare n ∧ JudgesPairs method n lines)
      (fun _ => JudgesPairs method n) := by
  have hmatrix : Meets transcript
      (fun lines => iterate.hessian.FiniteSquare n ∧ JudgesPairs method n lines)
      ((ofSecant stepLength method).transcribed.matrixFor f.transcribed iterate)
      (fun held lines => held.FiniteSquare n ∧ JudgesPairs method n lines)
      (fun _ => JudgesPairs method n) :=
    .ite (fun _ => (hessianAt_judgesPairs f _ _).mono_pre fun _ h => h.2)
      (fun _ => .pure fun _ h => h)
  change Meets (belowLog Objective.underTally) _ _ _ _
  apply advance_meets hmatrix
  · exact fun held => .checked _ fun _ _ h => h.2
  · exact fun _ _ h => h.2
  · exact fun held x => .of_fact fun hsquare => matrixAfter_judgesPairs f hsquare _ x _
  · intro x B
    apply Meets.of_fact
    intro hsquare
    exact (gradientAt_judgesPairs f x _).mono (fun _ _ h => ⟨hsquare, h⟩) fun _ _ h => h

theorem run_judgesPairs [ExtendedSub α] (f : Objective σ α) (point : Array α)
    (stopping : StoppingRule α) :
    Meets transcript (JudgesPairs method point.size)
      ((ofSecant stepLength method).transcribed.run f.transcribed point stopping)
      (fun _ => JudgesPairs method point.size) (fun _ => JudgesPairs method point.size) := by
  change Meets (belowLog Objective.underTally) _ _ _ _
  refine run_meets (fun _ _ h => h) ?_ (fun iterate => advance_judgesPairs f iterate) ?_
  · apply (gradientAt_judgesPairs f _ _).bind
    intro gradient
    apply (hessianAt_judgesPairs f _ _).bind
    intro hessian
    exact .pure fun _ h => h
  · intro iterate
    apply Meets.of_fact
    intro _
    exact Puts.judgesPairs (f.cost_puts iterate.point.toArray).beneath nofun

theorem watched_judgesPairs [ExtendedSub α] (f : Objective σ α) (stepLength : α)
    (method : Option (SecantRule × Safeguard α)) (point : Array α) (stopping : StoppingRule α)
    (state : σ) :
    JudgesPairs method point.size
      ((ofSecant stepLength method).watched f point stopping state).state.1 :=
  (watched_meets (run_judgesPairs f point stopping) .nil state).always

end Solver

end SecantDescent
