import SecantDescent.Objective.Differences
import SecantDescent.Objective.Univariate
import SecantDescent.Proofs.Float.Order
import SecantDescent.Proofs.Run.Inversion

/-!
# Verdicts on derivatives

A comparison asks for the derivative at the point itself and then for what it is
compared with on both sides of the point, one coordinate after the other.  Its
verdict is a statement about the differences between the two.  A difference that
is not a number is passed over by the largest magnitude, so it neither makes a
comparison fail nor shows in the largest error.
-/

namespace SecantDescent

open Eval

variable {σ α β γ ι : Type}

/-! ## Asking on both sides of a point -/

section Probes

variable [Scalar α]

def probe (ask : Array α → Eval σ α β) (h : α) (x : Array α) (i : Fin x.size) :
    Eval σ α (β × β) := do
  let above ← ask (Objective.displaced x i h)
  let below ← ask (Objective.displacedBack x i h)
  return (above, below)

/-- The answers above and below the point, the coordinates in order. -/
def probes (ask : Array α → Eval σ α β) (h : α) (x : Array α) : Eval σ α (List (β × β)) :=
  (List.finRange x.size).mapM (probe ask h x)

end Probes

namespace Eval

theorem mapM_map_eq (change : β → γ) (act : ι → Eval σ α β) (is : List ι) :
    (is.mapM fun i => change <$> act i) = List.map change <$> is.mapM act := by
  induction is with
  | nil => simp
  | cons i is ih =>
      rw [List.mapM_cons, List.mapM_cons, ih]
      simp

theorem length_of_mapM {act : ι → Eval σ α β} {is : List ι} {state after : σ}
    {answers : List β}
    (h : (is.mapM act).outcome state = (.ok answers, after)) : answers.length = is.length := by
  induction is generalizing state answers with
  | nil =>
      cases h
      rfl
  | cons i is ih =>
      rw [List.mapM_cons] at h
      obtain ⟨answer, middle, -, h⟩ := outcome_bind_eq_ok_iff.mp h
      obtain ⟨rest, last, hrest, h⟩ := outcome_bind_eq_ok_iff.mp h
      cases h
      rw [List.length_cons, List.length_cons, ih hrest]

/-- The answers to a list of questions, one for every coordinate. -/
theorem answers_of_mapM {n : Nat} {act : Fin n → Eval σ α β} {state after : σ}
    {answers : List β}
    (h : ((List.finRange n).mapM act).outcome state = (.ok answers, after)) :
    ∃ answer : Fin n → β, answers = (List.finRange n).map answer := by
  have hlength : answers.length = n := by
    rw [length_of_mapM h, List.length_finRange]
  subst hlength
  exact ⟨answers.get, by simp⟩

end Eval

/-! ## Differences -/

section Differences

variable [Scalar α] {n : Nat}

/-- The difference of a component of a gradient from the estimate that two values
give for it. -/
def componentDifference (h : α) (gradient : Vector α n) (i : Fin n) (sides : α × α) : α :=
  gradient.get i - (sides.1 - sides.2) / (h + h)

/-- The difference of an entry of a Hessian from the estimate that two gradients
give for it. -/
def entryDifference (h : α) (B : Grid α n n) (j i : Fin n) (sides : Array α × Array α) : α :=
  B.entry j i - (sides.1.getD j 0 - sides.2.getD j 0) / (h + h)

/-- The places of a square matrix, column by column. -/
def columnPlaces (n : Nat) : List (Fin n × Fin n) :=
  (List.finRange n).flatMap fun i => (List.finRange n).map fun j => (j, i)

theorem mem_columnPlaces (place : Fin n × Fin n) : place ∈ columnPlaces n := by
  simp [columnPlaces]

end Differences

/-! ## What a verdict says -/

/-- The verdict on a family of differences.  Those that are not numbers are left
out of it. -/
structure Comparison.Judges [Scalar α] (found : Comparison α) (tolerance : α)
    (difference : ι → α) : Prop where
  passes_iff : found.passes = true ↔ 0 < tolerance ∧
    ∀ i, Scalar.isNaN (difference i) = false → Scalar.abs (difference i) < tolerance
  passes_iff_of_numbers : Nonempty ι → (∀ i, Scalar.isNaN (difference i) = false) →
    (found.passes = true ↔ ∀ i, Scalar.abs (difference i) < tolerance)
  number : Scalar.isNaN found.maxError = false
  bounds : ∀ i, ¬ found.maxError < Scalar.abs (difference i)
  attained : found.maxError = 0 ∨ ∃ i, found.maxError = Scalar.abs (difference i)

section Verdicts

variable [Scalar α]

open Scalar

theorem Comparison.judges_largest [OrderedScalar α] {difference : ι → α} {is : List ι}
    (hall : ∀ i, i ∈ is) (tolerance : α) :
    Judges ⟨largestMagnitude (is.map difference) < tolerance,
      largestMagnitude (is.map difference)⟩ tolerance difference := by
  have hpasses : largestMagnitude (is.map difference) < tolerance ↔ 0 < tolerance ∧
      ∀ i, isNaN (difference i) = false → Scalar.abs (difference i) < tolerance := by
    simp [largestMagnitude_lt_iff, hall]
  constructor
  · exact decide_eq_true_iff.trans hpasses
  · rintro ⟨i⟩ hnumbers
    refine (decide_eq_true_iff.trans hpasses).trans ?_
    constructor
    · intro h j
      exact h.2 j (hnumbers j)
    · intro h
      exact ⟨zero_lt_of_abs_lt (h i), fun j _ => h j⟩
  · exact largestMagnitude_number _
  · intro i
    exact not_largestMagnitude_lt (List.mem_map_of_mem (hall i))
  · rcases largestMagnitude_eq_or (is.map difference) with hzero | ⟨x, hx, hlargest⟩
    · exact .inl hzero
    · obtain ⟨i, -, rfl⟩ := List.mem_map.mp hx
      exact .inr ⟨i, hlargest⟩

/-! ## Gradients -/

namespace Objective

variable {f : Objective σ α} {h : α} {x : Array α} {state after : σ}

theorem partialByDifferences_eq (f : Objective σ α) (h : α) (x : Array α) :
    f.partialByDifferences h x =
      fun i => (fun sides => (sides.1 - sides.2) / (h + h)) <$> probe f.cost h x i := by
  funext i
  simp [partialByDifferences, probe]

theorem gradientByDifferences_eq_ok {estimate : Array α}
    (hestimate : (f.gradientByDifferences h x).outcome state = (.ok estimate, after)) :
    ∃ sides : Fin x.size → α × α,
      (probes f.cost h x).outcome state = (.ok ((List.finRange x.size).map sides), after) ∧
      estimate.toList =
        (List.finRange x.size).map fun i => ((sides i).1 - (sides i).2) / (h + h) := by
  unfold gradientByDifferences at hestimate
  rw [partialByDifferences_eq, mapM_map_eq] at hestimate
  obtain ⟨partials, last, hpartials, hlast⟩ := outcome_bind_eq_ok_iff.mp hestimate
  cases hlast
  rw [outcome_map] at hpartials
  rcases hprobes : ((List.finRange x.size).mapM (probe f.cost h x)).outcome state with
    ⟨failure | answers, after⟩
  · rw [hprobes] at hpartials
    cases hpartials
  · rw [hprobes] at hpartials
    cases hpartials
    obtain ⟨sides, rfl⟩ := answers_of_mapM hprobes
    exact ⟨sides, hprobes, by simp⟩

theorem compareGradient_eq_ok {tolerance : α} {found : Comparison α}
    (hfound : (f.compareGradient h x tolerance).outcome state = (.ok found, after)) :
    ∃ (gradient : Vector α x.size) (sides : Fin x.size → α × α) (middle : σ),
      (f.gradient x).outcome state = (.ok gradient.toArray, middle) ∧
      (probes f.cost h x).outcome middle = (.ok ((List.finRange x.size).map sides), after) ∧
      found.maxError = largestMagnitude
        ((List.finRange x.size).map fun i => componentDifference h gradient i (sides i)) ∧
      found = ⟨found.maxError < tolerance, found.maxError⟩ := by
  simp only [compareGradient, ExceptT.bind_throw] at hfound
  obtain ⟨gradient, middle, hgradient, hrest⟩ := outcome_bind_eq_ok_iff.mp hfound
  obtain ⟨hsize, hrest⟩ := outcome_throw_ite_eq_ok_iff.mp hrest
  obtain ⟨estimate, last, hestimate, hlast⟩ := outcome_bind_eq_ok_iff.mp hrest
  obtain ⟨sides, hprobes, hestimates⟩ := gradientByDifferences_eq_ok hestimate
  cases hlast
  refine ⟨⟨gradient, not_not.mp hsize⟩, sides, middle, hgradient, hprobes, ?_, rfl⟩
  change largestMagnitude _ = _
  rw [hestimates]
  congr 1
  refine List.ext_getElem ?_ ?_
  · simp [not_not.mp hsize]
  · intro i hi hi'
    simp [componentDifference]

/-! ## Hessians -/

theorem columnByDifferences_eq (f : Objective σ α) (h : α) (x : Array α) (i : Fin x.size) :
    f.columnByDifferences h x i = probe f.gradient h x i >>= fun sides =>
      if sides.1.size ≠ sides.2.size then throw .shapeClash
      else return sides.1.zipWith (fun a b => (a - b) / (h + h)) sides.2 := by
  simp [columnByDifferences, probe]

/-- A column that is compared comes from two gradients of one length, which is at
least that of the column. -/
theorem columnError_eq_ok {n : Nat} {B : Grid α n n} {i : Fin n} {sides : Array α × Array α}
    {best result : α} (hsize : sides.1.size = sides.2.size)
    (hcolumn : columnError B i (sides.1.zipWith (fun a b => (a - b) / (h + h)) sides.2) best =
      .ok result) :
    n ≤ sides.1.size ∧ result =
      ((List.finRange n).map fun j => entryDifference h B j i sides).foldl
        (fun best difference => larger best (Scalar.abs difference)) best := by
  unfold columnError at hcolumn
  split at hcolumn
  next hlong =>
    have hleft : n ≤ sides.1.size := by
      simpa [hsize] using hlong
    have hright : n ≤ sides.2.size := hsize ▸ hleft
    cases hcolumn
    refine ⟨hleft, ?_⟩
    rw [List.foldl_map]
    congr 1
    funext best j
    simp [entryDifference, Array.getD, j.isLt.trans_le hleft, j.isLt.trans_le hright]
  next => cases hcolumn

theorem columns_eq_ok {B : Grid α x.size x.size} {is : List (Fin x.size)} {best result : α}
    (hresult : (is.foldlM (fun best i => do
        let estimate ← f.columnByDifferences h x i
        .ofExcept (columnError B i estimate best)) best : Eval σ α α).outcome state =
      (.ok result, after)) :
    ∃ answers, (is.mapM (probe f.gradient h x)).outcome state = (.ok answers, after) ∧
      (∀ sides ∈ answers, x.size ≤ sides.1.size ∧ sides.1.size = sides.2.size) ∧
      result = ((is.zip answers).flatMap fun column =>
          (List.finRange x.size).map fun j => entryDifference h B j column.1 column.2).foldl
        (fun best difference => larger best (Scalar.abs difference)) best := by
  -- The largest error carries over from column to column, so it is arbitrary here.
  induction is generalizing state best with
  | nil =>
      cases hresult
      exact ⟨[], rfl, nofun, rfl⟩
  | cons i is ih =>
      rw [List.foldlM_cons, columnByDifferences_eq] at hresult
      obtain ⟨head, next, hhead, hrest⟩ := outcome_bind_eq_ok_iff.mp hresult
      obtain ⟨estimate, last, hestimate, hhead⟩ := outcome_bind_eq_ok_iff.mp hhead
      obtain ⟨sides, middle, hsides, hestimate⟩ := outcome_bind_eq_ok_iff.mp hestimate
      obtain ⟨hsize, hestimate⟩ := outcome_throw_ite_eq_ok_iff.mp hestimate
      cases hestimate
      obtain ⟨hcolumn, rfl⟩ := Prod.mk.inj hhead
      obtain ⟨hlong, rfl⟩ := columnError_eq_ok (not_not.mp hsize) hcolumn
      obtain ⟨answers, hanswers, hsizes, hresult⟩ := ih hrest
      refine ⟨sides :: answers, ?_, ?_, ?_⟩
      · rw [List.mapM_cons]
        refine outcome_bind_eq_ok_iff.mpr ⟨sides, last, hsides, ?_⟩
        exact outcome_bind_eq_ok_iff.mpr ⟨answers, after, hanswers, rfl⟩
      · exact List.forall_mem_cons.mpr ⟨⟨hlong, not_not.mp hsize⟩, hsizes⟩
      · rw [List.zip_cons_cons, List.flatMap_cons, List.foldl_append]
        exact hresult

theorem compareHessian_eq_ok {tolerance : α} {found : Comparison α}
    (hfound : (f.compareHessian h x tolerance).outcome state = (.ok found, after)) :
    ∃ (B : Grid α x.size x.size) (sides : Fin x.size → Array α × Array α) (middle : σ),
      (f.hessian x).outcome state = (.ok (.ofGrid B), middle) ∧
      (probes f.gradient h x).outcome middle =
        (.ok ((List.finRange x.size).map sides), after) ∧
      (∀ i, x.size ≤ (sides i).1.size ∧ (sides i).1.size = (sides i).2.size) ∧
      found.maxError = largestMagnitude ((columnPlaces x.size).map fun place =>
        entryDifference h B place.1 place.2 (sides place.2)) ∧
      found = ⟨found.maxError < tolerance, found.maxError⟩ := by
  obtain ⟨hessian, middle, hhessian, hrest⟩ := outcome_bind_eq_ok_iff.mp hfound
  cases hgrid : hessian.toGrid? x.size x.size with
  | none =>
      rw [hgrid] at hrest
      cases hrest
  | some B =>
      rw [hgrid] at hrest
      obtain ⟨maxError, last, hcolumns, hlast⟩ := outcome_bind_eq_ok_iff.mp hrest
      cases hlast
      obtain ⟨answers, hprobes, hsizes, hlargest⟩ := columns_eq_ok hcolumns
      obtain ⟨sides, rfl⟩ := answers_of_mapM hprobes
      refine ⟨B, sides, middle, ?_, hprobes, ?_, ?_, rfl⟩
      · rw [hhessian, DenseMatrix.toGrid?_eq_some_iff.mp hgrid]
      · intro i
        exact hsizes _ (List.mem_map_of_mem (List.mem_finRange i))
      · change maxError = _
        have hcolumn : (List.finRange x.size).zip ((List.finRange x.size).map sides) =
            (List.finRange x.size).map fun i => (i, sides i) := by
          simpa using List.zip_map' (f := id) (g := sides) (l := List.finRange x.size)
        rw [hlargest, hcolumn, columnPlaces, largestMagnitude, List.map_flatMap,
          List.flatMap_map]
        simp only [List.map_map]
        rfl

variable [OrderedScalar α]

/-- A comparison passes when the tolerance is above zero and above every difference
that is a number; with all differences numbers and at least one component, this is
to say that they are below the tolerance.  The largest error is a number, and no
difference is larger. -/
theorem comparison_verdicts (f : Objective σ α) (h : α) (x : Array α) (tolerance : α)
    (state after : σ) (found : Comparison α) :
    ((f.compareGradient h x tolerance).outcome state = (.ok found, after) →
      ∃ (gradient : Vector α x.size) (sides : Fin x.size → α × α) (middle : σ),
        (f.gradient x).outcome state = (.ok gradient.toArray, middle) ∧
        (probes f.cost h x).outcome middle = (.ok ((List.finRange x.size).map sides), after) ∧
        found.Judges tolerance fun i => componentDifference h gradient i (sides i)) ∧
    ((f.compareHessian h x tolerance).outcome state = (.ok found, after) →
      ∃ (B : Grid α x.size x.size) (sides : Fin x.size → Array α × Array α) (middle : σ),
        (f.hessian x).outcome state = (.ok (.ofGrid B), middle) ∧
        (probes f.gradient h x).outcome middle =
          (.ok ((List.finRange x.size).map sides), after) ∧
        (∀ i, x.size ≤ (sides i).1.size ∧ (sides i).1.size = (sides i).2.size) ∧
        found.Judges tolerance fun place : Fin x.size × Fin x.size =>
          entryDifference h B place.1 place.2 (sides place.2)) := by
  constructor
  · intro hfound
    obtain ⟨gradient, sides, middle, hgradient, hprobes, hlargest, hverdict⟩ :=
      compareGradient_eq_ok hfound
    refine ⟨gradient, sides, middle, hgradient, hprobes, ?_⟩
    rw [hverdict, hlargest]
    exact Comparison.judges_largest List.mem_finRange tolerance
  · intro hfound
    obtain ⟨B, sides, middle, hhessian, hprobes, hsizes, hlargest, hverdict⟩ :=
      compareHessian_eq_ok hfound
    refine ⟨B, sides, middle, hhessian, hprobes, hsizes, ?_⟩
    rw [hverdict, hlargest]
    exact Comparison.judges_largest mem_columnPlaces tolerance

/-- The function `x² + 3xy`, the second component of whose gradient grows too fast, with
a matrix for its Hessian that is not symmetric and has two wrong entries. -/
def twisted : Objective Unit Float :=
  .ofFunctions (fun x => .ok (x.getD 0 0 * x.getD 0 0 + 3 * x.getD 0 0 * x.getD 1 0))
    (fun x => .ok #[2 * x.getD 0 0 + 3 * x.getD 1 0, 5 * x.getD 0 0 + 1])
    fun _ => .ok (.ofGrid #v[#v[2, 4], #v[5, 0.25]])

/-- The second component is off by three, the two entries by one and by a quarter. -/
theorem twisted_verdicts :
    ((twisted.compareGradient 0.5 #[1, 2] 2).outcome () = (.ok ⟨false, 3⟩, ()) ∧
      ∃ (gradient : Vector Float 2) (sides : Fin 2 → Float × Float),
        (twisted.gradient #[1, 2]).outcome () = (.ok gradient.toArray, ()) ∧
        (probes twisted.cost 0.5 #[1, 2]).outcome () =
          (.ok ((List.finRange 2).map sides), ()) ∧
        Comparison.Judges ⟨false, 3⟩ (2 : Float) fun i =>
          componentDifference 0.5 gradient i (sides i)) ∧
    (twisted.compareHessian 0.5 #[1, 2] 2).outcome () = (.ok ⟨true, 1⟩, ()) ∧
      ∃ (B : Grid Float 2 2) (sides : Fin 2 → Array Float × Array Float),
        (twisted.hessian #[1, 2]).outcome () = (.ok (.ofGrid B), ()) ∧
        (probes twisted.gradient 0.5 #[1, 2]).outcome () =
          (.ok ((List.finRange 2).map sides), ()) ∧
        Comparison.Judges ⟨true, 1⟩ (2 : Float) fun place : Fin 2 × Fin 2 =>
          entryDifference 0.5 B place.1 place.2 (sides place.2) := by
  have hgradient : (twisted.compareGradient 0.5 #[1, 2] 2).outcome () =
      (.ok ⟨false, 3⟩, ()) := by
    set_option maxRecDepth 4000 in with_unfolding_all rfl
  have hhessian : (twisted.compareHessian 0.5 #[1, 2] 2).outcome () =
      (.ok ⟨true, 1⟩, ()) := by
    set_option maxRecDepth 4000 in with_unfolding_all rfl
  have hcomponents :=
    (comparison_verdicts twisted 0.5 #[1, 2] 2 () () ⟨false, 3⟩).1 hgradient
  have hentries := (comparison_verdicts twisted 0.5 #[1, 2] 2 () () ⟨true, 1⟩).2 hhessian
  obtain ⟨gradient, sides, ⟨⟩, hanswer, hprobes, hjudges⟩ := hcomponents
  obtain ⟨B, columns, ⟨⟩, hanswer', hprobes', -, hjudges'⟩ := hentries
  exact ⟨⟨hgradient, gradient, sides, hanswer, hprobes, hjudges⟩, hhessian, B, columns,
    hanswer', hprobes', hjudges'⟩

/-- The function `x` with its derivative written as a quotient, which is not a number
at zero. -/
def brokenSlope : Objective Unit Float :=
  univariate .ok (fun x => .ok (x / x)) fun _ => .ok 0

theorem brokenSlope_passes :
    (brokenSlope.compareGradient Precision.differenceStep #[0] 1e-6).outcome () =
      (.ok ⟨true, 0⟩, ()) ∧
    ∃ gradient estimate, (brokenSlope.gradient #[0]).outcome () = (.ok #[gradient], ()) ∧
      (brokenSlope.gradientByDifferences Precision.differenceStep #[0]).outcome () =
        (.ok #[estimate], ()) ∧
      ¬ Scalar.abs (gradient - estimate) < 1e-6 := by
  refine ⟨rfl, 0 / 0, _, rfl, rfl, ?_⟩
  decide +kernel

end Objective

end Verdicts

end SecantDescent
