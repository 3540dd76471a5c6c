import SecantDescent.Proofs.Run.Inversion

/-!
# What a run leaves behind

The log of a run, and a record that its callables keep, are continued and never
rewritten, also by a run that fails.  `Onward` says so of two sessions, together
with the kind of the events that the log was continued with.  It passes from the
callables to every part of a run.
-/

namespace SecantDescent

open Eval

variable {σ α β γ κ τ ω : Type}

/-! ## Computations that keep a relation -/

/-- Whether it returns or fails, the computation leaves a state behind that is in
the relation with the one it began in. -/
structure Eval.Goes (related : ω → ω → Prop) (act : Eval ω α β) : Prop where
  outcome : ∀ state, related state (act.outcome state).2

namespace Eval.Goes

variable {related : ω → ω → Prop} {act : Eval ω α β}

theorem ofExcept [Std.Refl related] (result : Except (Failure α) β) :
    Goes related (.ofExcept result) where
  outcome state := Std.Refl.refl state

theorem pure [Std.Refl related] (value : β) : Goes related (pure value : Eval ω α β) :=
  ofExcept (.ok value)

theorem throw [Std.Refl related] (failure : Failure α) :
    Goes related (throw failure : Eval ω α β) :=
  ofExcept (.error failure)

theorem bind [Trans related related related] {next : β → Eval ω α γ} (h : Goes related act)
    (hnext : ∀ value, Goes related (next value)) : Goes related (act >>= next) where
  outcome state := by
    have hact := h.outcome state
    rw [outcome_bind]
    generalize act.outcome state = ended at hact
    rcases ended with ⟨failure | value, middle⟩
    · exact hact
    · exact Trans.trans hact ((hnext value).outcome middle)

theorem ite {condition : Prop} [Decidable condition] {other : Eval ω α β}
    (h : Goes related act) (hother : Goes related other) :
    Goes related (if condition then act else other) := by
  by_cases hcondition : condition
  · rw [if_pos hcondition]
    exact h
  · rw [if_neg hcondition]
    exact hother

theorem beneath {lifted : τ × ω → τ × ω → Prop} (h : Goes related act)
    (hlifted : ∀ state below, related state.2 below → lifted state (state.1, below)) :
    Goes lifted act.beneath where
  outcome state := hlifted state _ (h.outcome state.2)

end Eval.Goes

/-! ## Records and logs -/

/-- The record in the second state continues that in the first one. -/
def Grown (record : ω → List κ) (state after : ω) : Prop :=
  record state <+: record after

instance (record : ω → List κ) : Std.Refl (Grown record) where
  refl state := List.prefix_refl (record state)

instance (record : ω → List κ) : Trans (Grown record) (Grown record) (Grown record) where
  trans h h' := List.IsPrefix.trans h h'

/-- The log of the second session continues that of the first one with events
of the kind allowed, and the record of the callables has grown. -/
structure Onward (allowed : Event α → Prop) (record : σ → List κ)
    (session after : Session σ α) : Prop where
  log : ∃ events, after.1.toList = session.1.toList ++ events ∧ ∀ event ∈ events, allowed event
  record : Grown record session.2.2 after.2.2

variable {allowed : Event α → Prop} {record : σ → List κ}

/-- A session whose log is as it was. -/
theorem Onward.of_grown {session : Session σ α} {calls : Tally} {state : σ}
    (h : Grown record session.2.2 state) :
    Onward allowed record session (session.1, calls, state) where
  log := ⟨[], (List.append_nil _).symm, nofun⟩
  record := h

theorem Onward.of_tell {event : Event α} (h : allowed event) (session : Session σ α) :
    Onward allowed record session (session.1.push event, session.2) where
  log := by
    refine ⟨[event], Array.toList_push, ?_⟩
    intro other hother
    rw [List.mem_singleton] at hother
    rw [hother]
    exact h
  record := List.prefix_refl _

instance : Std.Refl (Onward allowed record : Session σ α → Session σ α → Prop) where
  refl _ := .of_grown (List.prefix_refl _)

instance : Trans (Onward allowed record : Session σ α → Session σ α → Prop)
    (Onward allowed record) (Onward allowed record : Session σ α → Session σ α → Prop) where
  trans h h' := by
    obtain ⟨events, hevents, hallowed⟩ := h.log
    obtain ⟨events', hevents', hallowed'⟩ := h'.log
    refine ⟨⟨events ++ events', ?_, ?_⟩, Trans.trans h.record h'.record⟩
    · rw [hevents', hevents, List.append_assoc]
    · exact List.forall_mem_append.mpr ⟨hallowed, hallowed'⟩

/-- Without a kind of event that is allowed, the log is as it was. -/
theorem Onward.log_eq {session after : Session σ α}
    (h : Onward (fun _ => False) record session after) : after.1 = session.1 := by
  obtain ⟨events, hevents, hnone⟩ := h.log
  rw [List.eq_nil_iff_forall_not_mem.mpr hnone, List.append_nil] at hevents
  exact Array.toList_inj.mp hevents

theorem Onward.mono {allowed' : Event α → Prop} (h : ∀ event, allowed event → allowed' event)
    {session after : Session σ α} (honward : Onward allowed record session after) :
    Onward allowed' record session after where
  log := by
    obtain ⟨events, hevents, hallowed⟩ := honward.log
    exact ⟨events, hevents, fun event hevent => h event (hallowed event hevent)⟩
  record := honward.record

/-! ## The parts of a run -/

structure Objective.Grows (record : σ → List κ) (f : Objective σ α) : Prop where
  cost : ∀ x, Goes (Grown record) (f.cost x)
  gradient : ∀ x, Goes (Grown record) (f.gradient x)
  hessian : ∀ x, Goes (Grown record) (f.hessian x)

theorem Eval.Goes.after {act : Eval σ α β} (h : Goes (Grown record) act) (change : τ → τ) :
    Goes (Grown (record ∘ Prod.snd)) (act.after change) where
  outcome state := by
    rw [outcome_after]
    exact h.outcome state.2

theorem Objective.Grows.counted {f : Objective σ α} (h : f.Grows record) :
    f.counted.Grows (record ∘ Prod.snd) where
  cost x := (h.cost x).after _
  gradient x := (h.gradient x).after _
  hessian x := (h.hessian x).after _

/-- Nothing is recorded, and so nothing is lost. -/
theorem Objective.grows_nothing (f : Objective σ α) : f.Grows fun _ => ([] : List κ) :=
  ⟨fun _ => ⟨fun _ => List.prefix_refl _⟩, fun _ => ⟨fun _ => List.prefix_refl _⟩,
    fun _ => ⟨fun _ => List.prefix_refl _⟩⟩

/-- The trace of a traced objective is such a record. -/
theorem Objective.traced_grows (f : Objective σ α) :
    f.traced.Grows fun state => state.1.toList := by
  have hrecording {β : Type} (call : Call α) (act : Eval σ α β) :
      Goes (Grown fun state : Trace α × σ => state.1.toList) (act.recording call) := by
    constructor
    intro state
    rw [Eval.recording, outcome_after]
    simp [Grown]
  exact ⟨fun x => hrecording _ _, fun x => hrecording _ _, fun x => hrecording _ _⟩

theorem Eval.Goes.onward {act : Eval (Tally × σ) α β}
    (h : Goes (Grown (record ∘ Prod.snd)) act) :
    Goes (Onward allowed record) (act.beneath : Eval (Session σ α) α β) :=
  h.beneath fun _ _ hgrown => .of_grown hgrown

def Event.isSkip : Event α → Bool
  | .skippedUpdate .. => true
  | _ => false

namespace Solver

variable {f : Objective σ α}

theorem tell_goes {event : Event α} (h : allowed event) :
    Goes (Onward allowed record) (tell event : Eval (Session σ α) α Unit) where
  outcome session := .of_tell h session

theorem costAt_goes (hf : f.Grows record) {n : Nat} (x : Vector α n) :
    Goes (Onward allowed record) (costAt f x) :=
  (hf.counted.cost x.toArray).onward

variable [Scalar α] {n : Nat}

theorem gradientAt_goes (hf : f.Grows record) (x : Vector α n) (k : Nat) :
    Goes (Onward allowed record) (gradientAt f x k) :=
  (hf.counted.gradient x.toArray).onward.bind fun _ => .ofExcept _

theorem hessianAt_goes (hf : f.Grows record) (x : Vector α n) (k : Nat) :
    Goes (Onward allowed record) (hessianAt f x k) := by
  refine (hf.counted.hessian x.toArray).onward.bind fun answer => ?_
  exact .bind (.ofExcept _) fun _ => .pure answer

theorem initialIterate_goes (hf : f.Grows record) (x : Vector α n) :
    Goes (Onward allowed record) (initialIterate f x) := by
  refine (gradientAt_goes hf x 0).bind fun gradient => ?_
  exact (hessianAt_goes hf x 0).bind fun hessian => .pure _

theorem between_goes {related : σ → σ → Prop} [Std.Refl related]
    [Trans related related related] (hf : ∀ x, Goes related (f.gradient x))
    (point next : Array α) : Goes related (SecantPair.between f point next) := by
  unfold SecantPair.between
  simp only [ExceptT.bind_throw]
  refine .ite (.throw _) ?_
  refine (hf point).bind fun gradient => ?_
  refine (hf next).bind fun nextGradient => ?_
  refine .ite (.throw _) (.ite (.throw _) ?_)
  exact .bind (.ofExcept _) fun s => .bind (.ofExcept _) fun y => .ofExcept _

theorem isSkip_lastEvent (stopping : StoppingRule α) (iterate : Iterate α n) (value : α)
    (ending : Ending) : (lastEvent stopping iterate value ending).isSkip = false := by
  cases ending with
  | converged =>
      rw [lastEvent]
      split <;> rfl
  | maxIterations => rfl

theorem conclude_goes (hf : f.Grows record)
    (hothers : ∀ event : Event α, event.isSkip = false → allowed event)
    (stopping : StoppingRule α) (iterate : Iterate α n) (ending : Ending) :
    Goes (Onward allowed record) (conclude f stopping iterate ending) := by
  refine (costAt_goes hf iterate.point).bind fun value => ?_
  refine (tell_goes (hothers _ (isSkip_lastEvent stopping iterate value ending))).bind
    fun _ => ?_
  exact ⟨fun session => Std.Refl.refl session⟩

theorem enter_goes (solver : Solver σ α) (hf : f.Grows record)
    (hothers : ∀ event : Event α, event.isSkip = false → allowed event) (point : Array α)
    (stopping : StoppingRule α) :
    Goes (Onward allowed record) (solver.enter f point stopping) := by
  refine (tell_goes (hothers _ rfl)).bind fun _ => .bind (.ofExcept _) fun _ => ?_
  exact .bind (.ofExcept _) fun _ => .bind (.ofExcept _) fun _ => initialIterate_goes hf _

end Solver

end SecantDescent
