import SecantDescent.Objective.Quadratic
import SecantDescent.Proofs.Run.Alike
import SecantDescent.Proofs.Run.Schedule
import SecantDescent.Proofs.Run.WellShaped

/-!
# Budgets in instalments

A run without an update rule that spends its budget can be taken up again at
its last point: a run from there with another budget does what the first run
would have done with both budgets.  The two differ in the numbers of the
iterations, and in the Hessian at the point in between, which the second run
asks for when it enters and the longer run at the head of its next iteration.
A failure moves its number along, unless a callable has answered with it: then
the longer run gets the same answer and passes it on.
-/

namespace SecantDescent

open Eval

variable {σ σ' ω α β γ : Type} {n : Nat}

/-- The failure as a run reports it that has done `m` iterations more.  What
fails on entry is put down to the iteration that follows. -/
def Failure.postponed (m : Nat) : Failure α → Failure α
  | .singularMatrix iteration => .singularMatrix (m + max iteration 1)
  | .nonFiniteValue quantity iteration => .nonFiniteValue quantity (m + max iteration 1)
  | failure => failure

/-- The answers do not depend on what was asked before. -/
structure Objective.Memoryless (f : Objective σ α) : Prop where
  cost : ∀ x state state', ((f.cost x).outcome state).1 = ((f.cost x).outcome state').1
  gradient : ∀ x state state',
    ((f.gradient x).outcome state).1 = ((f.gradient x).outcome state').1
  hessian : ∀ x state state', ((f.hessian x).outcome state).1 =
    ((f.hessian x).outcome state').1

theorem Objective.ofFunctions_memoryless (cost : Array α → Except (Failure α) α)
    (gradient : Array α → Except (Failure α) (Array α))
    (hessian : Array α → Except (Failure α) (DenseMatrix α)) :
    (Objective.ofFunctions cost gradient hessian : Objective σ α).Memoryless :=
  ⟨fun _ _ _ => rfl, fun _ _ _ => rfl, fun _ _ _ => rfl⟩

/-- No call was refused. -/
def Answered (lines : Transcript α) : Prop :=
  ∀ line ∈ lines, line.failure? = none

/-- How a failure comes back `m` iterations later: the refusal of the last call as
it is, any other failure with its number moved. -/
inductive Delays (m : Nat) (lines : Transcript α) : Failure α → Failure α → Prop
  | refused {before line failure} (last : lines = before ++ [line])
      (refusal : line.failure? = some failure) : Delays m lines failure failure
  | raised {failure} (answered : Answered lines) :
      Delays m lines failure (failure.postponed m)

/-- What the second computation does is what the first one does, `m` iterations
later.  The first one keeps a transcript. -/
def EchoesLater (m : Nat) (record : ω → Transcript α) (related : β → γ → Prop)
    (act : Eval ω α β) (other : Eval σ' α γ) : Prop :=
  Echoes (fun state => Answered (record state)) (fun state => Delays m (record state)) related
    act other

variable {m : Nat} {record : ω → Transcript α} {related : β → γ → Prop}

theorem EchoesLater.raised {result : Except (Failure α) β} {result' : Except (Failure α) γ}
    (h : Alike (fun failure other => other = failure.postponed m) related result result') :
    EchoesLater m record related (.ofExcept result : Eval ω α β)
      (.ofExcept result' : Eval σ' α γ) := by
  refine Echoes.ofExcept fun state hanswered => h.imp ?_ fun _ _ hrelated => hrelated
  rintro failure _ rfl
  exact .raised hanswered

/-- A call that gets the same answer in both computations. -/
theorem Puts.echoesLater {line : Except (Failure α) β → Exchange α} {act : Eval ω α β}
    {other : Eval σ' α β} (h : Puts record line act)
    (hsame : ∀ state state', (other.outcome state').1 = (act.outcome state).1) :
    EchoesLater m record Eq act other := by
  intro state state' hanswered
  have hput := h.put state
  rw [hsame state state']
  cases hresult : (act.outcome state).1 with
  | ok value =>
      rw [hresult] at hput
      have hkept : Answered (record (act.outcome state).2) := by
        rw [hput]
        exact List.forall_mem_append.mpr
          ⟨hanswered, List.forall_mem_singleton.mpr (h.refused (.ok value))⟩
      exact .ok ⟨rfl, hkept⟩
  | error failure =>
      rw [hresult] at hput
      exact .error (.refused hput (h.refused (.error failure)))

variable {f : Objective σ α}

namespace Objective.Memoryless

variable (hf : f.Memoryless) (x : Array α)
include hf

theorem cost_echoes :
    EchoesLater m underTally Eq (f.transcribed.counted.cost x) (f.counted.cost x) := by
  apply (f.cost_puts x).echoesLater
  intro state state'
  rw [counted, counted, outcome_after, outcome_after]
  exact hf.cost x _ _

theorem gradient_echoes :
    EchoesLater m underTally Eq (f.transcribed.counted.gradient x) (f.counted.gradient x) := by
  apply (f.gradient_puts x).echoesLater
  intro state state'
  rw [counted, counted, outcome_after, outcome_after]
  exact hf.gradient x _ _

theorem hessian_echoes :
    EchoesLater m underTally Eq (f.transcribed.counted.hessian x) (f.counted.hessian x) := by
  apply (f.hessian_puts x).echoesLater
  intro state state'
  rw [counted, counted, outcome_after, outcome_after]
  exact hf.hessian x _ _

end Objective.Memoryless

theorem Report.demandConvergence_eq_error_iff {report : Report α} {tolerance : α}
    {failure : Failure α} :
    report.demandConvergence tolerance = .error failure ↔
      report.ending = .maxIterations ∧ failure = .maxIterationsReached report.iterations
        report.value report.gradientNorm tolerance := by
  unfold demandConvergence
  cases report.ending with
  | converged => simp
  | maxIterations => simp [eq_comm]

/-! ## One iteration -/

variable [Scalar α]

theorem descentDirection_alike {k k' : Nat} (hk : k' = m + max k 1) (B : DenseMatrix α)
    (g : Vector α n) :
    Alike (fun failure other => other = failure.postponed m) Eq (descentDirection B g k)
      (descentDirection B g k') := by
  unfold descentDirection
  rw [hk]
  split
  next => exact .error rfl
  next =>
    split
    next => exact .error rfl
    next => exact .ite Iff.rfl (.ok rfl) (.error rfl)

namespace Solver

theorem checkGradient_alike {k k' : Nat} (hk : k' = m + max k 1) (answer : Array α) :
    Alike (fun failure other => other = failure.postponed m) Eq (checkGradient n answer k)
      (checkGradient n answer k') := by
  unfold checkGradient
  rw [hk]
  split
  next => exact .ite Iff.rfl (.ok rfl) (.error rfl)
  next => exact .error rfl

theorem checkHessian_alike {k k' : Nat} (hk : k' = m + max k 1) (answer : DenseMatrix α) :
    Alike (fun failure other => other = failure.postponed m) Eq (checkHessian n answer k)
      (checkHessian n answer k') := by
  unfold checkHessian
  rw [hk]
  exact .ite Iff.rfl (.ite Iff.rfl (.ok rfl) (.error rfl)) (.error rfl)

section

variable (hf : f.Memoryless)
include hf

theorem gradientAt_echoes {k k' : Nat} (hk : k' = m + max k 1) (x : Vector α n) :
    EchoesLater m transcript Eq (gradientAt f.transcribed x k) (gradientAt f x k') := by
  refine (hf.gradient_echoes x.toArray).beneath.bind fun answer _ hsame => ?_
  rw [← hsame]
  exact EchoesLater.raised (checkGradient_alike hk answer)

theorem hessianAt_echoes {k k' : Nat} (hk : k' = m + max k 1) (x : Vector α n) :
    EchoesLater m transcript Eq (hessianAt f.transcribed x k) (hessianAt f x k') := by
  refine (hf.hessian_echoes x.toArray).beneath.bind fun answer _ hsame => ?_
  rw [← hsame]
  exact (EchoesLater.raised (checkHessian_alike hk answer)).bind fun _ _ _ => .pure rfl

end

omit [Scalar α] in
theorem costAt_echoes (hf : f.Memoryless) (x : Vector α n) :
    EchoesLater m transcript Eq (costAt f.transcribed x) (costAt f x) :=
  (hf.cost_echoes x.toArray).beneath

omit [Scalar α] in
theorem tell_echoes (event event' : Event α) :
    EchoesLater m transcript Eq (tell event : Eval (Session (Transcript α × σ) α) α Unit)
      (tell event' : Eval (Session σ' α) α Unit) :=
  fun _ _ hanswered => .ok ⟨rfl, hanswered⟩

/-- What iteration `k` does without an update rule, once it has its matrix. -/
def pursue (a : α) (f : Objective σ α) (k : Nat) (x g : Vector α n) (held : DenseMatrix α) :
    Eval (Session σ α) α (Iterate α n) := do
  let direction ← .ofExcept (descentDirection held g k)
  let next := moved x direction a
  if !Scalar.allFinite next.toList then
    throw (.nonFiniteValue "point" k)
  let gradient ← gradientAt f next k
  return ⟨k, next, gradient, held⟩

variable {a : α}

theorem advance_newton (iterate : Iterate α n) :
    (ofSecant a none).advance f iterate = (ofSecant a none).matrixFor f iterate >>=
      pursue a f (iterate.count + 1) iterate.point iterate.gradient := rfl

theorem matrixFor_later {iterate : Iterate α n} (hcount : 0 < iterate.count) :
    (ofSecant a none).matrixFor f iterate =
      hessianAt f iterate.point (iterate.count + 1) := by
  simp [matrixFor, hcount, ofSecant]

/-- What the loop does between two advances. -/
def turn (solver : Solver σ α) (f : Objective σ α) (stopping : StoppingRule α)
    (remaining : Nat) (next : Iterate α n) : Eval (Session σ α) α (Report α) := do
  tell (.iteration next.count (Scalar.largestMagnitude next.gradient.toList))
  if stopping.isSatisfiedBy next.gradient.toList then
    conclude f stopping next .converged
  else
    solver.iterateFrom f stopping remaining next

theorem iterateFrom_succ (solver : Solver σ α) (stopping : StoppingRule α) (remaining : Nat)
    (iterate : Iterate α n) :
    solver.iterateFrom f stopping (remaining + 1) iterate =
      solver.advance f iterate >>= turn solver f stopping remaining := by
  rw [iterateFrom, iteration, bind_assoc]
  rfl

/-- The second iterate is the first one, reached after `m` iterations more.
The first one is not initial, so that neither matrix will be used again. -/
def Resumed (m : Nat) (iterate other : Iterate α n) : Prop :=
  0 < iterate.count ∧ other = { iterate with count := m + iterate.count }

/-- The second report is the first one, `m` iterations later. -/
def ResumedReport (m : Nat) (report other : Report α) : Prop :=
  0 < report.iterations ∧ ∃ calls,
    other = { report with iterations := m + report.iterations, evaluations := calls }

section

variable (hf : f.Memoryless)
include hf

theorem pursue_echoes {k k' : Nat} (hk : k' = m + k) (hpositive : 0 < k) (x g : Vector α n)
    (held : DenseMatrix α) :
    EchoesLater m transcript (Resumed m) (pursue a f.transcribed k x g held)
      (pursue a f k' x g held) := by
  have hnumber : k' = m + max k 1 := by omega
  refine Echoes.bind (EchoesLater.raised (descentDirection_alike hnumber held g)) ?_
  rintro direction _ rfl
  simp only [ExceptT.bind_throw]
  refine .ite Iff.rfl (.throw fun session hanswered => ?_) ?_
  · rw [hnumber]
    exact .raised hanswered
  · refine (gradientAt_echoes hf hnumber _).bind ?_
    rintro gradient _ rfl
    refine .pure ⟨hpositive, ?_⟩
    rw [hk]

theorem advance_echoes {iterate other : Iterate α n} (h : Resumed m iterate other) :
    EchoesLater m transcript (Resumed m) ((ofSecant a none).advance f.transcribed iterate)
      ((ofSecant a none).advance f other) := by
  obtain ⟨hlater, rfl⟩ := h
  have hlater' : 0 < m + iterate.count := Nat.add_pos_right m hlater
  have hnumber : m + iterate.count + 1 = m + max (iterate.count + 1) 1 := by omega
  rw [advance_newton, advance_newton, matrixFor_later hlater, matrixFor_later hlater']
  refine (hessianAt_echoes hf hnumber iterate.point).bind ?_
  rintro held _ rfl
  exact pursue_echoes hf rfl (Nat.succ_pos _) _ _ held

/-- The first iteration of a run that takes up another one: the Hessian it
enters with is the one that the other run asks for next. -/
theorem first_advance_echoes (hm : 0 < m) {iterate : Iterate α n}
    (hcount : iterate.count = m) :
    EchoesLater m transcript (Resumed m)
      (do (ofSecant a none).advance f.transcribed
            ⟨0, iterate.point, iterate.gradient, ← hessianAt f.transcribed iterate.point 0⟩)
      ((ofSecant a none).advance f iterate) := by
  subst hcount
  have hnumber : iterate.count + 1 = iterate.count + max 0 1 := rfl
  rw [advance_newton, matrixFor_later hm]
  refine (hessianAt_echoes hf hnumber iterate.point).bind ?_
  rintro held _ rfl
  exact pursue_echoes hf rfl Nat.one_pos _ _ held

/-! ## The rest of a run -/

theorem conclude_echoes {iterate other : Iterate α n} (h : Resumed m iterate other)
    (stopping stopping' : StoppingRule α) (ending : Ending) :
    EchoesLater m transcript (ResumedReport m) (conclude f.transcribed stopping iterate ending)
      (conclude f stopping' other ending) := by
  obtain ⟨hlater, rfl⟩ := h
  refine (costAt_echoes hf iterate.point).bind ?_
  rintro value _ rfl
  refine (tell_echoes _ _).bind fun _ _ _ => ?_
  exact fun session session' hanswered => .ok ⟨⟨hlater, session'.2.1, rfl⟩, hanswered⟩

theorem turn_echoes {stopping stopping' : StoppingRule α}
    (htolerance : stopping'.tolerance = stopping.tolerance) {remaining : Nat}
    {next next' : Iterate α n} (h : Resumed m next next')
    (hrest : EchoesLater m transcript (ResumedReport m)
      ((ofSecant a none).iterateFrom f.transcribed stopping remaining next)
      ((ofSecant a none).iterateFrom f stopping' remaining next')) :
    EchoesLater m transcript (ResumedReport m)
      (turn (ofSecant a none) f.transcribed stopping remaining next)
      (turn (ofSecant a none) f stopping' remaining next') := by
  refine (tell_echoes _ _).bind fun _ _ _ => ?_
  refine .ite ?_ (conclude_echoes hf h stopping stopping' .converged) hrest
  rw [h.2, StoppingRule.isSatisfiedBy, StoppingRule.isSatisfiedBy, htolerance]

theorem iterateFrom_echoes {stopping stopping' : StoppingRule α}
    (htolerance : stopping'.tolerance = stopping.tolerance) (remaining : Nat)
    {iterate other : Iterate α n} (h : Resumed m iterate other) :
    EchoesLater m transcript (ResumedReport m)
      ((ofSecant a none).iterateFrom f.transcribed stopping remaining iterate)
      ((ofSecant a none).iterateFrom f stopping' remaining other) := by
  induction remaining generalizing iterate other with
  | zero => exact conclude_echoes hf h stopping stopping' .maxIterations
  | succ remaining ih =>
      rw [iterateFrom_succ, iterateFrom_succ]
      exact (advance_echoes hf h).bind fun next next' hnext =>
        turn_echoes hf htolerance hnext (ih hnext)

/-- The loop of a run that takes up another one, its Hessian included. -/
theorem first_iterateFrom_echoes {stopping stopping' : StoppingRule α}
    (htolerance : stopping'.tolerance = stopping.tolerance) (hm : 0 < m) (remaining : Nat)
    {iterate : Iterate α n} (hcount : iterate.count = m) :
    EchoesLater m transcript (ResumedReport m)
      (do (ofSecant a none).iterateFrom f.transcribed stopping (remaining + 1)
            ⟨0, iterate.point, iterate.gradient, ← hessianAt f.transcribed iterate.point 0⟩)
      ((ofSecant a none).iterateFrom f stopping' (remaining + 1) iterate) := by
  simp only [iterateFrom_succ, ← bind_assoc]
  exact (first_advance_echoes hf hm hcount).bind fun next next' hnext =>
    turn_echoes hf htolerance hnext (iterateFrom_echoes hf htolerance remaining hnext)

end

/-! ## Taking up a run -/

/-- The heads of a run are heads of every run with a larger budget. -/
theorem AtHead.of_budget_le {solver : Solver σ α} {point : Array α}
    {stopping stopping' : StoppingRule α} {state : σ} {iterate : Iterate α point.size}
    {session : Session σ α} (head : AtHead solver f point stopping state iterate session)
    (htolerance : stopping'.tolerance = stopping.tolerance)
    (hvalid : stopping'.validate = .ok ())
    (hbudget : stopping.maxIterations.toNat ≤ stopping'.maxIterations.toNat) :
    AtHead solver f point stopping' state iterate session := by
  have hsatisfied (g : List α) : stopping'.isSatisfiedBy g = stopping.isSatisfiedBy g := by
    rw [StoppingRule.isSatisfiedBy, StoppingRule.isSatisfiedBy, htolerance]
  induction head with
  | first entered unmet =>
      obtain ⟨⟨-, hstep, hpoint⟩, hrest⟩ := enter_eq_ok_iff.mp entered
      refine .first (enter_eq_ok_iff.mpr ⟨⟨hvalid, hstep, hpoint⟩, hrest⟩) ?_
      rw [hsatisfied]
      exact unmet
  | next head room iterated unmet ih =>
      refine .next ih (Nat.lt_of_lt_of_le room hbudget) iterated ?_
      rw [hsatisfied]
      exact unmet

/-- The gradient at a head is the answer for its point. -/
theorem AtHead.gradientAt_result (hf : f.Memoryless) {solver : Solver σ α} {point : Array α}
    {stopping : StoppingRule α} {state : σ} {iterate : Iterate α point.size}
    {session : Session σ α} (head : AtHead solver f point stopping state iterate session)
    (k : Nat) (opened : Session σ α) :
    ((gradientAt f iterate.point k).outcome opened).1 = .ok iterate.gradient := by
  obtain ⟨hfinite, below, hanswer⟩ : Scalar.allFinite iterate.gradient.toList = true ∧
      ∃ below, ((f.gradient iterate.point.toArray).outcome below).1 =
        .ok iterate.gradient.toArray := by
    cases head with
    | first entered unmet =>
        obtain ⟨-, -, hpoint, middle, hgradient, -⟩ := enter_eq_ok_iff.mp entered
        rw [hpoint]
        obtain ⟨hfinite, _, hanswer, -⟩ := gradientAt_eq_ok_iff.mp hgradient
        exact ⟨hfinite, _, congrArg Prod.fst hanswer⟩
    | next head room iterated unmet =>
        obtain ⟨_, hadvance, -⟩ := iteration_eq_ok_iff.mp iterated
        obtain ⟨_, _, _, _, -, -, -, -, -, -, hgradient⟩ := advance_eq_ok_iff.mp hadvance
        obtain ⟨hfinite, _, hanswer, -⟩ := gradientAt_eq_ok_iff.mp hgradient
        exact ⟨hfinite, _, congrArg Prod.fst hanswer⟩
  have hsame := (hf.gradient iterate.point.toArray opened.2.2 below).trans hanswer
  exact congrArg Prod.fst (gradientAt_eq_ok_iff.mpr ⟨hfinite, _, Prod.ext hsame rfl, rfl⟩)

/-- The session in which a run looks at its initial point. -/
def opened (solver : Solver σ α) (session : Session σ α) : Session σ α :=
  (session.1.push (.started solver.name), session.2)

/-- A run whose arguments pass and whose gradient is known, from its Hessian on. -/
theorem outcome_run_of_gradientAt {f : Objective σ α} {stopping : StoppingRule α}
    {x g : Vector α n} {session middle : Session σ α}
    (harguments : (ofSecant a none : Solver σ α).checkArguments x.toArray stopping = .ok ())
    (hgradient : (gradientAt f x 0).outcome ((ofSecant a none).opened session) =
      (.ok g, middle))
    (hunmet : stopping.isSatisfiedBy g.toList = false) :
    ((ofSecant a none).run f x.toArray stopping).outcome session =
      Eval.outcome
        (do (ofSecant a none).iterateFrom f stopping stopping.maxIterations.toNat
              ⟨0, x, g, ← hessianAt f x 0⟩) middle := by
  obtain ⟨point, rfl⟩ := x
  have hgradient' :
      (gradientAt f point.toVector 0).outcome ((ofSecant a none).opened session) =
      (.ok g, middle) := hgradient
  change _ = Eval.outcome
    (do (ofSecant a none).iterateFrom f stopping stopping.maxIterations.toNat
          ⟨0, point.toVector, g, ← hessianAt f point.toVector 0⟩) middle
  rw [run, outcome_bind, outcome_enter, harguments, ← opened]
  simp only
  rw [initialIterate, outcome_bind, hgradient']
  simp only
  rw [outcome_bind, outcome_bind]
  rcases (hessianAt f point.toVector 0).outcome middle with ⟨failure | held, after⟩
  · rfl
  · simp only [outcome_pure, hunmet]
    rfl

/-- A run that starts at the point of a head is answered the gradient there. -/
theorem AtHead.exists_gradientAt_transcribed (hf : f.Memoryless) {solver : Solver σ α}
    {point : Array α} {stopping : StoppingRule α} {state : σ} {iterate : Iterate α point.size}
    {session : Session σ α} (head : AtHead solver f point stopping state iterate session)
    {start : Session (Transcript α × σ) α} (hstart : Answered (transcript start)) :
    ∃ middle, (gradientAt f.transcribed iterate.point 0).outcome start =
      (.ok iterate.gradient, middle) ∧ Answered (transcript middle) := by
  have hfollowed := gradientAt_follows f.transcribed_follows iterate.point 0 start
  have hgradient : ((gradientAt f.transcribed iterate.point 0).outcome start).1 =
      .ok iterate.gradient :=
    (congrArg Prod.fst hfollowed).symm.trans (head.gradientAt_result hf 0 _)
  obtain ⟨_, -, -, hanswered⟩ :=
    (gradientAt_echoes hf (m := 0) rfl iterate.point start session hstart).exists_ok hgradient
  exact ⟨_, Prod.ext hgradient rfl, hanswered⟩

theorem AtHead.checkArguments_resumed {solver : Solver σ α} {point : Array α}
    {stopping stopping' : StoppingRule α} {state : σ} {iterate : Iterate α point.size}
    {session : Session σ α} (hvalid : stopping'.validate = .ok ())
    (hfinite : Scalar.allFinite iterate.point.toList = true)
    (head : AtHead solver f point stopping state iterate session) :
    solver.checkArguments iterate.point.toArray stopping' = .ok () := by
  obtain ⟨-, hstep, hpoint⟩ := head.validated
  have hsize : iterate.point.toArray.isEmpty = point.isEmpty := by
    rw [Array.isEmpty, Array.isEmpty, Vector.size_toArray]
  have hfinite' : Scalar.allFinite iterate.point.toArray.toList = true := hfinite
  have hlast : validatePoint iterate.point.toArray = .ok () := by
    unfold validatePoint at hpoint ⊢
    rw [hsize, hfinite']
    split at hpoint
    next => cases hpoint
    next hsome => simp [hsome]
  rw [checkArguments, hvalid, hstep, hlast]
  rfl

omit [Scalar α] in
theorem toNat_add_of_lt {m k : UInt64} (hfit : m.toNat + k.toNat < UInt64.size) :
    (m + k).toNat = m.toNat + k.toNat := by
  rw [UInt64.toNat_add, Nat.mod_eq_of_lt hfit]

theorem validate_of_budget {tolerance : α} {m k : UInt64}
    (h : (⟨tolerance, m⟩ : StoppingRule α).validate = .ok ()) (hk : k ≠ 0) :
    (⟨tolerance, k⟩ : StoppingRule α).validate = .ok () := by
  obtain ⟨hnumber, hnegative, -⟩ := StoppingRule.validate_eq_ok_iff.mp h
  exact StoppingRule.validate_eq_ok_iff.mpr ⟨hnumber, hnegative, hk⟩

/-- Two runs one after the other, from where the first one spent its budget,
and one run with both budgets. -/
theorem resumed_result (hf : f.Memoryless) {point : Array α} {tolerance : α} {m k : UInt64}
    (hk : k ≠ 0) (hfit : m.toNat + k.toNat < UInt64.size) (state state' : σ)
    {iterate : Iterate α point.size} {session : Session σ α}
    (head : AtHead (ofSecant a none) f point ⟨tolerance, m⟩ state iterate session)
    (hspent : iterate.count = m.toNat) :
    let rest := (ofSecant a none).watched f iterate.point.toArray ⟨tolerance, k⟩ state'
    Alike (Delays m.toNat rest.state.1)
      (fun report other => ResumedReport m.toNat report other ∧ Answered rest.state.1)
      rest.result ((ofSecant a none).minimize f point ⟨tolerance, m + k⟩ state).result := by
  have hvalid := head.validated.1
  have hm : 0 < m.toNat := toNat_pos (StoppingRule.validate_eq_ok_iff.mp hvalid).2.2
  obtain ⟨left, hleft⟩ : ∃ left, k.toNat = left + 1 := Nat.exists_eq_add_one.mpr (toNat_pos hk)
  have hsum := toNat_add_of_lt hfit
  have hpositive : m + k ≠ 0 := by
    intro hzero
    rw [hzero, UInt64.toNat_zero] at hsum
    omega
  have hle : m.toNat ≤ (m + k).toNat := hsum ▸ Nat.le_add_right _ _
  have hwhole : AtHead (ofSecant a none) f point ⟨tolerance, m + k⟩ state iterate session :=
    head.of_budget_le rfl (validate_of_budget hvalid hpositive) hle
  have hremaining : (⟨tolerance, m + k⟩ : StoppingRule α).maxIterations.toNat - iterate.count =
      left + 1 := by
    change (m + k).toNat - iterate.count = left + 1
    omega
  have harguments := head.checkArguments_resumed (validate_of_budget hvalid hk)
    (sound_of_head head).point
  have hnone : Answered
      (transcript ((ofSecant a none).opened (#[], {}, (([] : Transcript α), state')))) :=
    fun _ => nofun
  obtain ⟨middle, hgradient, hanswered⟩ := head.exists_gradientAt_transcribed hf hnone
  have hrest := outcome_run_of_gradientAt (f := f.transcribed) harguments hgradient head.unmet
  have htolerance : (⟨tolerance, m + k⟩ : StoppingRule α).tolerance =
      (⟨tolerance, k⟩ : StoppingRule α).tolerance := rfl
  have halike := first_iterateFrom_echoes (a := a) hf htolerance hm left hspent middle session
    hanswered
  rw [← hleft, ← hrest] at halike
  rw [minimize_result, hwhole.outcome_run, hremaining, ← hleft]
  exact halike

/-- When a run without an update rule has spent its budget, a run with another
budget from its last point ends as the first run would have ended with both.  An
error that a callable has answered the last call with comes back as it is. -/
theorem newton_run_in_instalments (f : Objective σ α) (hf : f.Memoryless) (a : α)
    (point : Array α) (tolerance : α) (m k : UInt64) (hk : k ≠ 0)
    (hfit : m.toNat + k.toNat < UInt64.size) (state state' : σ) (first : Report α)
    (hfirst : ((ofSecant a none).minimize f point ⟨tolerance, m⟩ state).result = .ok first)
    (hending : first.ending = .maxIterations) :
    let rest := (ofSecant a none).watched f first.point ⟨tolerance, k⟩ state'
    let whole := ((ofSecant a none).minimize f point ⟨tolerance, m + k⟩ state).result
    rest.result = ((ofSecant a none).minimize f first.point ⟨tolerance, k⟩ state').result ∧
    (∀ report, rest.result = .ok report → 1 ≤ report.iterations ∧ ∃ calls,
      whole = .ok
        { report with iterations := m.toNat + report.iterations, evaluations := calls }) ∧
    (∀ failure, rest.result = .error failure →
      (∃ before line, rest.state.1 = before ++ [line] ∧ line.failure? = some failure ∧
        whole = .error failure) ∨
      Answered rest.state.1 ∧ whole = .error (failure.postponed m.toNat)) ∧
    ∀ report other demanded failure, rest.result = .ok report → whole = .ok other →
      report.demandConvergence demanded = .error failure →
      ∃ value norm, failure = .maxIterationsReached report.iterations value norm demanded ∧
        other.demandConvergence demanded =
          .error
            (.maxIterationsReached (m.toNat + report.iterations) value norm demanded) := by
  intro rest whole
  obtain ⟨iterate, session, ending, value, after, hfinish, -, rfl⟩ :=
    minimize_eq_ok_iff.mp hfirst
  cases hfinish with
  | atOnce entered met => cases hending
  | converged head room iterated met => cases hending
  | exhausted head spent =>
      have halike := resumed_result hf hk hfit state state' head spent
      have hreports {report : Report α} (hreport : rest.result = .ok report) :
          1 ≤ report.iterations ∧ ∃ calls, whole = .ok
            { report with
              iterations := m.toNat + report.iterations
              evaluations := calls } := by
        obtain ⟨_, hwhole, ⟨hpositive, calls, rfl⟩, -⟩ := halike.exists_ok hreport
        exact ⟨hpositive, calls, hwhole⟩
      refine ⟨watched_result _ f _ _ state', fun report => hreports, ?_, ?_⟩
      · intro failure hfailure
        obtain ⟨_, hwhole, hdelays⟩ := halike.exists_error hfailure
        cases hdelays with
        | refused last refusal => exact .inl ⟨_, _, last, refusal, hwhole⟩
        | raised answered => exact .inr ⟨answered, hwhole⟩
      · intro report other demanded failure hreport hother hdemanded
        obtain ⟨-, calls, hwhole⟩ := hreports hreport
        rw [hwhole] at hother
        cases hother
        obtain ⟨hspent, rfl⟩ := Report.demandConvergence_eq_error_iff.mp hdemanded
        exact ⟨_, _, rfl, Report.demandConvergence_eq_error_iff.mpr ⟨hspent, rfl⟩⟩

theorem halfSquare_in_instalments :
    let f : Objective Unit Float := (Quadratic.halfSquare 1).objective
    let solver : Solver Unit Float := ofSecant 0.5 none
    f.Memoryless ∧
    ∃ first report calls, (solver.minimize f #[1] ⟨0, 2⟩ ()).result = .ok first ∧
      first.ending = .maxIterations ∧
      (solver.minimize f first.point ⟨0, 3⟩ ()).result = .ok report ∧
      (solver.minimize f #[1] ⟨0, 2 + 3⟩ ()).result =
        .ok { report with iterations := 2 + report.iterations, evaluations := calls } := by
  intro f solver
  have hf : f.Memoryless := Objective.ofFunctions_memoryless _ _ _
  have hevaluated : (solver.minimize f #[1] ⟨0, 2⟩ ()).result.toOption.any (fun first =>
      first.ending = .maxIterations &&
        (solver.minimize f first.point ⟨0, 3⟩ ()).result.isOk) = true := by
    decide +kernel
  obtain ⟨first, hfirst, htest⟩ := exists_ok_of_any hevaluated
  obtain ⟨hending, hrest⟩ := Bool.and_eq_true_iff.mp htest
  obtain ⟨report, hreport⟩ := exists_of_isOk hrest
  obtain ⟨hresult, hreports, -⟩ := newton_run_in_instalments f hf 0.5 #[1] 0 2 3
    (by decide) (by decide) () () first hfirst (of_decide_eq_true hending)
  obtain ⟨-, calls, hwhole⟩ := hreports report (hresult.trans hreport)
  exact ⟨hf, first, report, calls, hfirst, of_decide_eq_true hending, hreport, hwhole⟩

/-- The identity on the line, with something for its Hessian. -/
def ramp (hessian : Array Float → Except (Failure Float) (DenseMatrix Float)) :
    Objective Unit Float :=
  .ofFunctions (fun x => .ok (x.getD 0 0)) (fun _ => .ok #[1]) hessian

/-- A Hessian that is known at one, and at no other point of the line. -/
def hessianAtOne (x : Array Float) : Except (Failure Float) (DenseMatrix Float) :=
  if x.getD 0 0 == 1 then .ok (.ofGrid (Grid.identity 1)) else .error (.singularMatrix 5)

/-- A numbered error of a callable comes back with its number from the longer run
too.  And where convergence is demanded, the number of iterations in the failure
is another one in the longer run. -/
theorem refusal_keeps_its_number :
    let solver : Solver Unit Float := ofSecant 1 none
    ((ramp hessianAtOne).Memoryless ∧
      ∃ first, (solver.minimize (ramp hessianAtOne) #[1] ⟨0, 1⟩ ()).result = .ok first ∧
        first.ending = .maxIterations ∧
        (solver.minimize (ramp hessianAtOne) first.point ⟨0, 1⟩ ()).result =
          .error (.singularMatrix 5) ∧
        (solver.minimize (ramp hessianAtOne) #[1] ⟨0, 1 + 1⟩ ()).result =
          .error (.singularMatrix 5) ∧
        (Failure.singularMatrix 5 : Failure Float) ≠ .singularMatrix (1 + max 5 1)) ∧
    let f := ramp fun _ => .ok (.ofGrid (Grid.identity 1))
    ∃ first, (solver.minimize f #[1] ⟨1e-5, 1⟩ ()).result = .ok first ∧
      first.ending = .maxIterations ∧
      (solver.minimize f first.point ⟨1e-5, 1⟩ ()).result.bind (·.demandConvergence 1e-5) =
        .error (.maxIterationsReached 1 (-1) 1 1e-5) ∧
      (solver.minimize f #[1] ⟨1e-5, 1 + 1⟩ ()).result.bind (·.demandConvergence 1e-5) =
        .error (.maxIterationsReached 2 (-1) 1 1e-5) := by
  intro solver
  refine ⟨⟨Objective.ofFunctions_memoryless _ _ _, ?_⟩, ?_⟩
  · have hevaluated : (solver.minimize (ramp hessianAtOne) #[1] ⟨0, 1⟩ ()).result.toOption.any
        (fun first => first.ending = .maxIterations &&
          failsWith (· = .singularMatrix 5)
            (solver.minimize (ramp hessianAtOne) first.point ⟨0, 1⟩ ()).result) = true := by
      decide +kernel
    obtain ⟨first, hfirst, htest⟩ := exists_ok_of_any hevaluated
    obtain ⟨hending, hrest⟩ := Bool.and_eq_true_iff.mp htest
    refine ⟨first, hfirst, of_decide_eq_true hending, eq_error_of_failsWith hrest, ?_, ?_⟩
    · exact eq_error_of_failsWith (by decide +kernel)
    · nofun
  · intro f
    have hevaluated : (solver.minimize f #[1] ⟨1e-5, 1⟩ ()).result.toOption.any
        (fun first => first.ending = .maxIterations &&
          failsWith (· = .maxIterationsReached 1 (-1) 1 1e-5)
            ((solver.minimize f first.point ⟨1e-5, 1⟩ ()).result.bind
              (·.demandConvergence 1e-5))) = true := by
      decide +kernel
    obtain ⟨first, hfirst, htest⟩ := exists_ok_of_any hevaluated
    obtain ⟨hending, hrest⟩ := Bool.and_eq_true_iff.mp htest
    refine ⟨first, hfirst, of_decide_eq_true hending, eq_error_of_failsWith hrest, ?_⟩
    exact eq_error_of_failsWith (by decide +kernel)

end Solver

end SecantDescent
