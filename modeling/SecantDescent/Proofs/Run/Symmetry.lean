import SecantDescent.Proofs.Run.Checked
import SecantDescent.Proofs.Secant.Symmetry

/-!
# Symmetry along a run

With the rule of rank two a run holds the Hessian that the objective gave at the
initial point until the first update that is not skipped, and symmetric matrices
from then on.  So the matrices are symmetric throughout if that Hessian is.
-/

namespace SecantDescent

open Eval

variable {σ α : Type}

/-- The matrix was made anew, and not kept. -/
def Exchange.isUpdate : Exchange α → Bool
  | .refresh _ _ _ (.ok (.updated _)) => true
  | _ => false

def Updated (lines : Transcript α) : Prop :=
  ∃ line ∈ lines, line.isUpdate = true

/-- Where the matrix held comes from, for a run from the given point. -/
inductive Origin (point : Array α) (held : DenseMatrix α) (lines : Transcript α) : Prop
  | initial (kept : ¬ Updated lines) (given : .hessian point (.ok held) ∈ lines)
  | symmetric (symmetric : held.Symmetric)

namespace Origin

variable {point : Array α} {held : DenseMatrix α} {lines : Transcript α} {line : Exchange α}

theorem append (h : Origin point held lines) (hline : line.isUpdate = false) :
    Origin point held (lines ++ [line]) := by
  cases h with
  | initial kept given =>
      refine .initial ?_ (List.mem_append_left _ given)
      rintro ⟨other, hother, hupdate⟩
      rcases List.mem_append.mp hother with hearlier | hlast
      · exact kept ⟨other, hearlier, hupdate⟩
      · rw [List.mem_singleton.mp hlast, hline] at hupdate
        cases hupdate
  | symmetric symmetric => exact .symmetric symmetric

theorem of_after (hline : line.isUpdate = false) (h : After (Origin point held) line lines) :
    Origin point held lines := by
  obtain ⟨earlier, hearlier, rfl⟩ := h
  exact hearlier.append hline

theorem symmetric_of (h : Origin point held lines)
    (hreason : Updated lines ∨ ∀ H, .hessian point (.ok H) ∈ lines → H.Symmetric) :
    held.Symmetric := by
  cases h with
  | initial kept given => exact hreason.resolve_left kept held given
  | symmetric symmetric => exact symmetric

end Origin

namespace Solver

variable [Scalar α] {n : Nat} (point : Array α) (held : DenseMatrix α)

theorem gradientAt_origin (f : Objective σ α) (x : Vector α n) (k : Nat) :
    Meets transcript (Origin point held) (gradientAt f.transcribed x k)
      (fun _ => Origin point held) (fun _ _ => True) := by
  apply (gradientAt_meets f x k (Origin point held)).mono
  · rintro g lines ⟨-, hlines⟩
    exact .of_after rfl hlines
  · exact fun _ _ _ => trivial

theorem between_origin (f : Objective σ α) (x x' : Vector α n) :
    Meets Objective.underTally (Origin point held)
      (SecantPair.between f.transcribed.counted x.toArray x'.toArray)
      (fun _ => Origin point held) (fun _ _ => True) := by
  apply (between_meets f x x' (Origin point held)).mono
  · rintro pair _ ⟨-, g, g', -, earlier, hearlier, rfl⟩
    exact (Origin.of_after rfl hearlier).append rfl
  · exact fun _ _ _ => trivial

omit held in
theorem initialIterate_origin (f : Objective σ α) :
    Meets transcript (· = []) (initialIterate f.transcribed point.toVector)
      (fun first => Origin point first.hessian) (fun _ _ => True) := by
  apply ((gradientAt_meets f point.toVector 0 (· = [])).mono (fun _ _ h => h.2)
    fun _ _ _ => trivial).bind
  intro gradient
  apply ((hessianAt_meets f point.toVector 0 _).mono (fun _ _ h => h.2)
    fun _ _ _ => trivial).bind
  intro hessian
  apply Meets.pure
  rintro _ ⟨_, ⟨_, rfl, rfl⟩, rfl⟩
  apply Origin.initial
  · simp [Updated, Exchange.isUpdate]
  · simp

variable [Std.Commutative fun a b : α => a + b]
variable (f : Objective σ α) (stepLength : α) (safeguard : Safeguard α)

theorem refresh_origin (pair : SecantPair α) :
    Meets Objective.underTally (Origin point held)
      ((SecantRule.bfgs.toUpdateRule safeguard :
        UpdateRule σ α).transcribed.beneath.refresh held pair)
      (fun refresh => Origin point (refresh.matrix held)) (fun _ _ => True) := by
  apply (((SecantRule.bfgs.toUpdateRule safeguard).refresh_puts held pair).meets
    (Origin point held)).with_result.mono
  · rintro refresh lines ⟨⟨state, hresult⟩, hlines⟩
    have hrefresh : SecantRule.bfgs.refresh safeguard held pair = .ok refresh := hresult
    cases refresh with
    | updated B => exact .symmetric (SecantRule.symmetric_of_bfgs_refresh hrefresh)
    | skipped degeneracy => exact .of_after rfl hlines
  · exact fun _ _ _ => trivial

theorem matrixAfter_origin (x x' : Vector α n) (k : Nat) :
    Meets transcript (Origin point held)
      ((ofSecant stepLength (some (.bfgs, safeguard))).transcribed.matrixAfter
        f.transcribed held x x' k)
      (Origin point) (fun _ _ => True) := by
  have hadvance :=
    (between_origin point held f x x').bind (refresh_origin point held safeguard)
  apply hadvance.beneath.bind
  intro refresh
  refine (adopt_meets _ held k refresh fun _ _ => trivial).mono ?_ fun _ _ h => h
  rintro B lines ⟨⟨rfl, -⟩, horigin⟩
  exact horigin

theorem advance_origin (iterate : Iterate α n) :
    Meets transcript (Origin point iterate.hessian)
      ((ofSecant stepLength (some (.bfgs, safeguard))).transcribed.advance f.transcribed
        iterate)
      (fun next => Origin point next.hessian) (fun _ _ => True) := by
  -- With a rule the objective is asked for no Hessian after the first.
  have hheld : (ofSecant stepLength (some (.bfgs, safeguard))).transcribed.matrixFor
      f.transcribed iterate = pure iterate.hessian := by
    simp [matrixFor, transcribed, ofSecant]
  have hmatrix : Meets transcript (Origin point iterate.hessian)
      ((ofSecant stepLength (some (.bfgs, safeguard))).transcribed.matrixFor f.transcribed
        iterate)
      (Origin point) (fun _ _ => True) := by
    rw [hheld]
    exact .pure fun _ h => h
  change Meets (belowLog Objective.underTally) _ _ _ _
  apply advance_meets hmatrix
  · exact fun held => .checked _ fun _ _ _ => trivial
  · exact fun _ _ _ => trivial
  · exact fun held x => matrixAfter_origin point held f stepLength safeguard iterate.point x _
  · exact fun x B => gradientAt_origin point B f x _

/-- An update of rank two that is not skipped is symmetric.  With this rule the
matrix of a run is symmetric from the first such update on, at every head and in
the report, and throughout the run if the Hessian at the initial point is. -/
theorem bfgs_run_keeps_symmetry (stopping : StoppingRule α) (state : σ) :
    (∀ held pair B, SecantRule.bfgs.refresh safeguard held pair = .ok (.updated B) →
      B.Symmetric) ∧
    let solver : Solver σ α := ofSecant stepLength (some (.bfgs, safeguard))
    let run := solver.watched f point stopping state
    run.result = (solver.minimize f point stopping state).result ∧
    (∀ iterate session,
      AtHead solver.transcribed f.transcribed point stopping ([], state) iterate session →
      Updated (transcript session) ∨
        (∀ H, .hessian point (.ok H) ∈ transcript session → H.Symmetric) →
      iterate.hessian.Symmetric) ∧
    ∀ report, run.result = .ok report →
      Updated run.state.1 ∨ (∀ H, .hessian point (.ok H) ∈ run.state.1 → H.Symmetric) →
      report.hessian.Symmetric := by
  refine ⟨fun _ _ _ => SecantRule.symmetric_of_bfgs_refresh, ?_⟩
  intro solver run
  refine ⟨watched_result solver f point stopping state, ?_, ?_⟩
  · intro iterate session head
    exact (head.meets Objective.underTally (initialIterate_origin point f)
      (advance_origin point f stepLength safeguard) rfl).symmetric_of
  · intro report hreport
    have hcost (iterate : Iterate α point.size) :
        Meets transcript (Origin point iterate.hessian)
        (costAt f.transcribed iterate.point) (fun _ => Origin point iterate.hessian)
        (fun _ _ => True) := by
      apply ((f.cost_puts iterate.point.toArray).beneath.meets _).mono
      · exact fun _ _ hlines => .of_after rfl hlines
      · exact fun _ _ _ => trivial
    have hrun : Meets transcript (· = []) (solver.transcribed.run f.transcribed point stopping)
        (fun report => Origin point report.hessian) (fun _ _ => True) :=
      run_meets_report Objective.underTally (Origin point) (fun _ _ _ _ => trivial)
        (initialIterate_origin point f) (advance_origin point f stepLength safeguard) hcost
    have hends := watched_meets hrun rfl state
    change Ends _ _ run.result run.state.1 at hends
    rw [hreport] at hends
    exact hends.symmetric_of

/-- Half the square of the distance from the origin, with a matrix that is not
symmetric for its Hessian. -/
def lopsided {α : Type} [Scalar α] : Objective Unit α :=
  .ofFunctions (fun _ => .ok 0) .ok fun _ => .ok (.ofGrid #v[#v[1, 1], #v[0, 1]])

theorem lopsided_runs_become_symmetric :
    (let run :=
        (ofSecant (1 : Float) (some (.bfgs, ⟨.skip, 0⟩))).watched lopsided #[1, 1] ⟨0, 1⟩ ();
      ∃ report, run.result = .ok report ∧ Updated run.state.1 ∧ report.hessian.Symmetric) ∧
    let run :=
      (ofSecant (1 : Float32) (some (.bfgs, ⟨.skip, 0⟩))).watched lopsided #[1, 1] ⟨0, 1⟩ ();
    ∃ report, run.result = .ok report ∧ Updated run.state.1 ∧ report.hessian.Symmetric := by
  refine ⟨?_, ?_⟩
  · intro run
    have hupdated : Updated run.state.1 := by
      unfold Updated
      decide +kernel
    obtain ⟨report, hreport⟩ : ∃ report, run.result = .ok report := by
      apply exists_of_isOk
      decide +kernel
    obtain ⟨-, -, -, hsymmetric⟩ :=
      bfgs_run_keeps_symmetry #[1, 1] lopsided (1 : Float) ⟨.skip, 0⟩ ⟨0, 1⟩ ()
    exact ⟨report, hreport, hupdated, hsymmetric report hreport (.inl hupdated)⟩
  · intro run
    have hupdated : Updated run.state.1 := by
      unfold Updated
      decide +kernel
    obtain ⟨report, hreport⟩ : ∃ report, run.result = .ok report := by
      apply exists_of_isOk
      decide +kernel
    obtain ⟨-, -, -, hsymmetric⟩ :=
      bfgs_run_keeps_symmetry #[1, 1] lopsided (1 : Float32) ⟨.skip, 0⟩ ⟨0, 1⟩ ()
    exact ⟨report, hreport, hupdated, hsymmetric report hreport (.inl hupdated)⟩

end Solver

end SecantDescent
