import SecantDescent.Proofs.Run.Watching

/-!
# Transcripts of calls

A transcript puts every call of a callable down with its answer.  Callables
that keep one answer as they would without it.  What a computation may add to
the transcript is said by a plan, which holds of the schedules that the
computation can go through when no call is refused, and of the value it then
has.  A computation that fails gets to a point within such a schedule; when it
fails with the answer to a call, that call is its last one.
-/

namespace SecantDescent

open Eval

variable {σ α β γ ω τ : Type}

/-! ## Transcripts -/

/-- A call together with its answer. -/
inductive Exchange (α : Type) where
  | cost (point : Array α) (answer : Except (Failure α) α)
  | gradient (point : Array α) (answer : Except (Failure α) (Array α))
  | hessian (point : Array α) (answer : Except (Failure α) (DenseMatrix α))
  | refresh (held : DenseMatrix α) (s y : Array α) (answer : Except (Failure α) (Refresh α))

abbrev Transcript (α : Type) := List (Exchange α)

namespace Exchange

def call : Exchange α → Call α
  | cost point _ => .cost point
  | gradient point _ => .gradient point
  | hessian point _ => .hessian point
  | refresh held s y _ => .refresh held s y

def refusal : Except (Failure α) β → Option (Failure α)
  | .ok _ => none
  | .error failure => some failure

def failure? : Exchange α → Option (Failure α)
  | cost _ answer => refusal answer
  | gradient _ answer => refusal answer
  | hessian _ answer => refusal answer
  | refresh _ _ _ answer => refusal answer

end Exchange

def Eval.transcribing (line : Except (Failure α) β → Exchange α) (act : Eval σ α β) :
    Eval (Transcript α × σ) α β :=
  .of fun (transcript, state) =>
    let (answer, after) := act.outcome state
    (answer, (transcript ++ [line answer], after))

def Objective.transcribed (f : Objective σ α) : Objective (Transcript α × σ) α where
  cost x := (f.cost x).transcribing (.cost x)
  gradient x := (f.gradient x).transcribing (.gradient x)
  hessian x := (f.hessian x).transcribing (.hessian x)

def UpdateRule.transcribed (rule : UpdateRule σ α) : UpdateRule (Transcript α × σ) α where
  name := rule.name
  refresh held pair := (rule.refresh held pair).transcribing (.refresh held pair.s pair.y)

namespace Solver

def transcribed (solver : Solver σ α) : Solver (Transcript α × σ) α where
  step := solver.step
  rule := solver.rule.map UpdateRule.transcribed

def traced (solver : Solver σ α) : Solver (Trace α × σ) α where
  step := solver.step
  rule := solver.rule.map UpdateRule.traced

theorem transcribed_follows (solver : Solver σ α) :
    Solver.Follows Prod.snd solver.transcribed solver where
  step := rfl
  rule := by
    rw [transcribed]
    cases solver.rule with
    | none => exact .none
    | some rule => exact .some ⟨rfl, fun held pair state => rfl⟩

end Solver

theorem Objective.transcribed_follows (f : Objective σ α) :
    Objective.Follows Prod.snd f.transcribed f where
  cost _ _ := rfl
  gradient _ _ := rfl
  hessian _ _ := rfl

def Transcript.trace (state : Transcript α × σ) : Trace α × σ :=
  ((state.1.map Exchange.call).toArray, state.2)

theorem Eval.transcribing_follows {line : Except (Failure α) β → Exchange α} {call : Call α}
    (hcall : ∀ answer, (line answer).call = call) (act : Eval σ α β) :
    Eval.Follows Transcript.trace (act.transcribing line) (act.recording call) := by
  intro state
  rw [recording, outcome_after]
  simp [Transcript.trace, transcribing, hcall]

theorem Objective.transcribed_follows_traced (f : Objective σ α) :
    Objective.Follows Transcript.trace f.transcribed f.traced where
  cost x := by
    apply transcribing_follows
    exact fun answer => rfl
  gradient x := by
    apply transcribing_follows
    exact fun answer => rfl
  hessian x := by
    apply transcribing_follows
    exact fun answer => rfl

theorem Solver.transcribed_follows_traced (solver : Solver σ α) :
    Solver.Follows Transcript.trace solver.transcribed solver.traced where
  step := rfl
  rule := by
    rw [transcribed, traced]
    cases solver.rule with
    | none => exact .none
    | some rule =>
        refine .some ⟨rfl, fun held pair => ?_⟩
        apply transcribing_follows
        exact fun answer => rfl

/-! ## What a computation asks -/

/-- A transcript that breaks off within a schedule: between two calls, or with
a call that was not answered as scheduled.  Such a call can have been answered
with the failure that the computation ends with, and with no other one. -/
inductive Interrupted (failure : Failure α) : Transcript α → Transcript α → Prop
  | between {schedule} : Interrupted failure [] schedule
  | within {line planned schedule} (called : line.call = planned.call)
      (cause : ∀ refusal, line.failure? = some refusal → refusal = failure) :
      Interrupted failure [line] (planned :: schedule)
  | after {line lines schedule} (answered : line.failure? = none)
      (rest : Interrupted failure lines schedule) :
      Interrupted failure (line :: lines) (line :: schedule)

namespace Interrupted

variable {failure : Failure α} {lines schedule : Transcript α}

theorem append_right (h : Interrupted failure lines schedule) (more : Transcript α) :
    Interrupted failure lines (schedule ++ more) := by
  induction h with
  | between => exact .between
  | within called cause => exact .within called cause
  | after answered rest ih => exact .after answered ih

theorem append_left {first : Transcript α} (hfirst : ∀ line ∈ first, line.failure? = none)
    (h : Interrupted failure lines schedule) :
    Interrupted failure (first ++ lines) (first ++ schedule) := by
  induction first with
  | nil => exact h
  | cons line first ih =>
      obtain ⟨hline, hrest⟩ := List.forall_mem_cons.mp hfirst
      exact .after hline (ih hrest)

theorem calls_begin (h : Interrupted failure lines schedule) :
    lines.map Exchange.call <+: schedule.map Exchange.call := by
  induction h with
  | between => exact List.nil_prefix
  | @within line planned schedule called cause =>
      rw [List.map_cons, List.map_cons, called, List.map_nil]
      exact List.cons_prefix_cons.mpr ⟨rfl, List.nil_prefix⟩
  | after answered rest ih =>
      rw [List.map_cons, List.map_cons]
      exact List.cons_prefix_cons.mpr ⟨rfl, ih⟩

/-- A call that was answered with a failure is the last line. -/
theorem last_of_failure (h : Interrupted failure lines schedule) {before after : Transcript α}
    {line : Exchange α} {refusal : Failure α} (hlines : lines = before ++ line :: after)
    (hline : line.failure? = some refusal) : after = [] ∧ refusal = failure := by
  induction h generalizing before with
  | between => simp at hlines
  | within called cause =>
      cases before with
      | nil =>
          cases hlines
          exact ⟨rfl, cause refusal hline⟩
      | cons _ before => simp at hlines
  | after answered rest ih =>
      cases before with
      | nil =>
          cases hlines
          rw [hline] at answered
          cases answered
      | cons _ before =>
          cases hlines
          exact ih rfl

end Interrupted

/-- How far a computation with a result gets in a schedule: to its end with the
value that the schedule gives, or to a point where it is interrupted. -/
inductive Performs (value : β) :
    Except (Failure α) β → Transcript α → Transcript α → Prop
  | whole {schedule} : Performs value (.ok value) schedule schedule
  | broken {failure lines schedule} (h : Interrupted failure lines schedule) :
      Performs value (.error failure) lines schedule

theorem Performs.append_left {value : β} {result : Except (Failure α) β}
    {first lines schedule : Transcript α} (hfirst : ∀ line ∈ first, line.failure? = none)
    (h : Performs value result lines schedule) :
    Performs value result (first ++ lines) (first ++ schedule) := by
  cases h with
  | whole => exact .whole
  | broken h => exact .broken (h.append_left hfirst)

/-- A refused call is the last one, and the computation fails with the refusal. -/
theorem Performs.last_of_failure {value : β} {result : Except (Failure α) β}
    {lines schedule before after : Transcript α} {line : Exchange α} {refusal : Failure α}
    (h : Performs value result lines schedule)
    (hanswered : ∀ line ∈ schedule, line.failure? = none)
    (hlines : lines = before ++ line :: after) (hline : line.failure? = some refusal) :
    after = [] ∧ result = .error refusal := by
  cases h with
  | whole =>
      have hnone := hanswered line (by simp [hlines])
      rw [hline] at hnone
      cases hnone
  | broken hbroken =>
      obtain ⟨hlast, rfl⟩ := hbroken.last_of_failure hlines hline
      exact ⟨hlast, rfl⟩

/-- From every state the computation adds lines to the transcript that perform
a planned schedule. -/
def Asks (record : ω → Transcript α) (act : Eval ω α β) (plan : Transcript α → β → Prop) :
    Prop :=
  ∀ state, ∃ lines schedule value,
    plan schedule value ∧ (∀ line ∈ schedule, line.failure? = none) ∧
    record (act.outcome state).2 = record state ++ lines ∧
    Performs value (act.outcome state).1 lines schedule

namespace Asks

variable {record : ω → Transcript α} {act : Eval ω α β} {plan : Transcript α → β → Prop}

theorem quiet (hrecord : ∀ state, record (act.outcome state).2 = record state)
    (hplan : ∀ state value, (act.outcome state).1 = .ok value → plan [] value)
    (hsome : ∃ value, plan [] value) : Asks record act plan := by
  intro state
  have hlines : record (act.outcome state).2 = record state ++ [] := by
    rw [hrecord, List.append_nil]
  cases hresult : (act.outcome state).1 with
  | ok value => exact ⟨[], [], value, hplan state value hresult, nofun, hlines, .whole⟩
  | error failure =>
      obtain ⟨value, hvalue⟩ := hsome
      exact ⟨[], [], value, hvalue, nofun, hlines, .broken .between⟩

theorem ofExcept {result : Except (Failure α) β}
    (hplan : ∀ value, result = .ok value → plan [] value) (hsome : ∃ value, plan [] value) :
    Asks record (.ofExcept result) plan :=
  quiet (fun _ => rfl) (fun _ => hplan) hsome

theorem pure {value : β} (hplan : plan [] value) :
    Asks record (pure value : Eval ω α β) plan := by
  have hvalue : Asks record (.ofExcept (.ok value)) plan := by
    apply ofExcept
    · intro result hresult
      cases hresult
      exact hplan
    · exact ⟨value, hplan⟩
  exact hvalue

theorem bind {next : β → Eval ω α γ} {whole : Transcript α → γ → Prop}
    (h : Asks record act plan)
    (hnext : ∀ first value, plan first value →
      Asks record (next value) fun rest result => whole (first ++ rest) result) :
    Asks record (act >>= next) whole := by
  intro state
  obtain ⟨lines, first, value, hplan, hfirst, hrecord, hperforms⟩ := h state
  rw [outcome_bind]
  rcases hact : act.outcome state with ⟨result, after⟩
  rw [hact] at hrecord hperforms
  obtain ⟨lines', rest, result', hwhole, hrest, hrecord', hperforms'⟩ :=
    hnext first value hplan after
  have hschedule : ∀ line ∈ first ++ rest, line.failure? = none :=
    List.forall_mem_append.mpr ⟨hfirst, hrest⟩
  cases hperforms with
  | whole =>
      refine ⟨lines ++ lines', lines ++ rest, result', hwhole, hschedule, ?_, ?_⟩
      · rw [hrecord', hrecord, List.append_assoc]
      · exact hperforms'.append_left hfirst
  | broken h =>
      exact ⟨lines, first ++ rest, result', hwhole, hschedule, hrecord,
        .broken (h.append_right rest)⟩

/-- A computation that is followed by another one, where its calls are known
from its value. -/
theorem bind_calls {calls : β → Transcript α} {next : β → Eval ω α γ}
    {whole : Transcript α → γ → Prop}
    (h : Asks record act fun schedule value => schedule = calls value)
    (hnext : ∀ value,
      Asks record (next value) fun rest result => whole (calls value ++ rest) result) :
    Asks record (act >>= next) whole := by
  apply h.bind
  intro first value hfirst
  rw [hfirst]
  exact hnext value

theorem bind_value {known : β} {next : β → Eval ω α γ} {whole : Transcript α → γ → Prop}
    (h : Asks record act fun schedule value => schedule = [] ∧ value = known)
    (hnext : Asks record (next known) whole) : Asks record (act >>= next) whole := by
  apply h.bind
  intro first value hfirst
  rw [hfirst.1, hfirst.2]
  exact hnext

theorem mono {plan' : Transcript α → β → Prop} (h : Asks record act plan)
    (hplan : ∀ schedule value, plan schedule value → plan' schedule value) :
    Asks record act plan' := by
  intro state
  obtain ⟨lines, schedule, value, hvalue, hrest⟩ := h state
  exact ⟨lines, schedule, value, hplan schedule value hvalue, hrest⟩

theorem beneath (h : Asks record act plan) :
    Asks (fun state : τ × ω => record state.2) act.beneath plan := by
  intro state
  exact h state.2

theorem throw_ite {condition : Prop} [Decidable condition] (failure : Failure α)
    (h : Asks record act plan) :
    Asks record (if condition then throw failure else act) plan := by
  by_cases hcondition : condition
  · rw [if_pos hcondition]
    intro state
    obtain ⟨-, schedule, value, hplan, hschedule, -, -⟩ := h state
    exact ⟨[], schedule, value, hplan, hschedule, (List.append_nil _).symm, .broken .between⟩
  · rw [if_neg hcondition]
    exact h

end Asks

/-- From every state the computation adds one line to the transcript, a call
with the result of the computation for its answer. -/
structure Puts (record : ω → Transcript α) (line : Except (Failure α) β → Exchange α)
    (act : Eval ω α β) : Prop where
  called : ∀ answer other, (line answer).call = (line other).call
  refused : ∀ answer, (line answer).failure? = Exchange.refusal answer
  put : ∀ state, record (act.outcome state).2 = record state ++ [line (act.outcome state).1]

namespace Puts

variable {record : ω → Transcript α} {line : Except (Failure α) β → Exchange α}
variable {act : Eval ω α β}

theorem beneath (h : Puts record line act) :
    Puts (fun state : τ × ω => record state.2) line act.beneath where
  called := h.called
  refused := h.refused
  put state := h.put state.2

theorem after (h : Puts record line act) (change : τ → τ) :
    Puts (fun state : τ × ω => record state.2) line (act.after change) where
  called := h.called
  refused := h.refused
  put state := by
    rw [outcome_after]
    exact h.put state.2

/-- A computation that ends in a failure can break off at the call, unless the
call was answered with another failure. -/
theorem interrupted (h : Puts record line act) {answer : Except (Failure α) β}
    {failure : Failure α} (hcause : ∀ refusal, answer = .error refusal → refusal = failure)
    (planned : β) : Interrupted failure [line answer] [line (.ok planned)] := by
  apply Interrupted.within (h.called answer (.ok planned))
  intro refusal hrefusal
  rw [h.refused] at hrefusal
  cases answer with
  | ok answer => cases hrefusal
  | error _ =>
      cases hrefusal
      exact hcause refusal rfl

/-- A call whose answer has to pass a check.  The schedule has the answer that
belongs to the value. -/
theorem checked (h : Puts record line act) {check : β → Except (Failure α) γ}
    {answered : γ → β}
    (hcheck : ∀ answer value, check answer = .ok value → answer = answered value)
    (hsome : Nonempty γ) :
    Asks record (act >>= fun answer => .ofExcept (check answer)) fun schedule value =>
      schedule = [line (.ok (answered value))] := by
  intro state
  obtain ⟨fallback⟩ := hsome
  have hput := h.put state
  have hanswered (value : γ) :
      ∀ planned ∈ [line (.ok (answered value))], planned.failure? = none :=
    List.forall_mem_singleton.mpr (h.refused _)
  rw [outcome_bind]
  rcases hact : act.outcome state with ⟨failure | answer, after⟩
  · rw [hact] at hput
    have hinterrupted : Interrupted failure [line (.error failure)]
        [line (.ok (answered fallback))] :=
      h.interrupted (fun _ hsame => (Except.error.inj hsame).symm) _
    exact ⟨_, _, fallback, rfl, hanswered fallback, hput, .broken hinterrupted⟩
  · rw [hact] at hput
    change ∃ lines schedule value, schedule = [line (.ok (answered value))] ∧
      (∀ planned ∈ schedule, planned.failure? = none) ∧ record after = record state ++ lines ∧
      Performs value (check answer) lines schedule
    cases hpassed : check answer with
    | error failure =>
        have hinterrupted : Interrupted failure [line (.ok answer)]
            [line (.ok (answered fallback))] := by
          apply h.interrupted
          nofun
        exact ⟨_, _, fallback, rfl, hanswered fallback, hput, .broken hinterrupted⟩
    | ok value =>
        rw [hcheck answer value hpassed] at hput
        exact ⟨_, _, value, rfl, hanswered value, hput, .whole⟩

theorem asks (h : Puts record line act) (hsome : Nonempty β) :
    Asks record act fun schedule value => schedule = [line (.ok value)] := by
  have hchecked : Asks record (act >>= fun answer => .ofExcept (.ok answer))
      fun schedule value => schedule = [line (.ok value)] :=
    h.checked (fun _ _ hsame => Except.ok.inj hsame) hsome
  have hact : (act >>= fun answer => .ofExcept (.ok answer)) = act := bind_pure act
  rwa [hact] at hchecked

end Puts

/-! ## The callables with a transcript -/

theorem Eval.transcribing_puts {line : Except (Failure α) β → Exchange α}
    (called : ∀ answer other, (line answer).call = (line other).call)
    (refused : ∀ answer, (line answer).failure? = Exchange.refusal answer) (act : Eval σ α β) :
    Puts Prod.fst line (act.transcribing line) where
  called := called
  refused := refused
  put _ := rfl

namespace Objective

variable (f : Objective σ α) (x : Array α)

abbrev underTally (state : Tally × Transcript α × σ) : Transcript α :=
  state.2.1

theorem cost_puts : Puts underTally (.cost x) (f.transcribed.counted.cost x) :=
  (transcribing_puts (fun _ _ => rfl) (fun _ => rfl) (f.cost x)).after Tally.countCost

theorem gradient_puts : Puts underTally (.gradient x) (f.transcribed.counted.gradient x) :=
  (transcribing_puts (fun _ _ => rfl) (fun _ => rfl) (f.gradient x)).after Tally.countGradient

theorem hessian_puts : Puts underTally (.hessian x) (f.transcribed.counted.hessian x) :=
  (transcribing_puts (fun _ _ => rfl) (fun _ => rfl) (f.hessian x)).after Tally.countHessian

end Objective

theorem UpdateRule.refresh_puts (rule : UpdateRule σ α) (held : DenseMatrix α)
    (pair : SecantPair α) :
    Puts Objective.underTally (.refresh held pair.s pair.y)
      (rule.transcribed.beneath.refresh held pair) :=
  (transcribing_puts (fun _ _ => rfl) (fun _ => rfl) (rule.refresh held pair)).beneath

end SecantDescent
