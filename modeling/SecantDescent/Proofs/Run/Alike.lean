import SecantDescent.Proofs.Run.Inversion

/-!
# Results side by side

Two computations are compared by their results, failures with failures and
values with values.  `Alike` does that for two results, `Eval.Echoes` for two
computations whose results do not depend on what happened before.  What the
first computation leaves behind can say more about why it has failed.
-/

namespace SecantDescent

open Eval

/-- Two results that are both failures with a common cause, or both values in a
relation. -/
inductive Alike {ε ε' β γ : Type} (cause : ε → ε' → Prop) (related : β → γ → Prop) :
    Except ε β → Except ε' γ → Prop
  | ok {value other} (h : related value other) : Alike cause related (.ok value) (.ok other)
  | error {failure other} (h : cause failure other) :
      Alike cause related (.error failure) (.error other)

theorem Alike.refl {ε β : Type} {cause : ε → ε → Prop} {result : Except ε β}
    (hcause : ∀ failure, result = .error failure → cause failure failure) :
    Alike cause Eq result result := by
  cases result with
  | ok value => exact .ok rfl
  | error failure => exact .error (hcause failure rfl)

namespace Alike

variable {ε ε' β γ β' γ' : Type} {cause : ε → ε' → Prop}
variable {related : β → γ → Prop} {related' : β' → γ' → Prop}
variable {first : Except ε β} {second : Except ε' γ}

theorem exists_ok (h : Alike cause related first second) {value : β}
    (hvalue : first = .ok value) :
    ∃ other, second = .ok other ∧ related value other := by
  cases h with
  | ok hrelated =>
      cases hvalue
      exact ⟨_, rfl, hrelated⟩
  | error hcause => cases hvalue

theorem exists_error (h : Alike cause related first second) {failure : ε}
    (hfailure : first = .error failure) :
    ∃ other, second = .error other ∧ cause failure other := by
  cases h with
  | ok hrelated => cases hfailure
  | error hcause =>
      cases hfailure
      exact ⟨_, rfl, hcause⟩

theorem imp {cause' : ε → ε' → Prop} {weaker : β → γ → Prop}
    (h : Alike cause related first second)
    (hcause : ∀ failure other, cause failure other → cause' failure other)
    (hrelated : ∀ value other, related value other → weaker value other) :
    Alike cause' weaker first second := by
  cases h with
  | ok h => exact .ok (hrelated _ _ h)
  | error h => exact .error (hcause _ _ h)

theorem bind {next : β → Except ε β'} {next' : γ → Except ε' γ'}
    (h : Alike cause related first second)
    (hnext : ∀ value other, related value other →
      Alike cause related' (next value) (next' other)) :
    Alike cause related' (first >>= next) (second >>= next') := by
  cases h with
  | ok h => exact hnext _ _ h
  | error h => exact .error h

theorem map {change : β → β'} {change' : γ → γ'} (h : Alike cause related first second)
    (hchange : ∀ value other, related value other → related' (change value) (change' other)) :
    Alike cause related' (first.map change) (second.map change') := by
  cases h with
  | ok h => exact .ok (hchange _ _ h)
  | error h => exact .error h

theorem of_map {change : β → β'} {change' : γ → γ'}
    (h : Alike cause related' (first.map change) (second.map change'))
    (hchange : ∀ value other, related' (change value) (change' other) → related value other) :
    Alike cause related first second := by
  cases first with
  | ok value =>
      cases second with
      | ok other =>
          cases h with
          | ok h => exact .ok (hchange value other h)
      | error other => cases h
  | error failure =>
      cases second with
      | ok other => cases h
      | error other =>
          cases h with
          | error h => exact .error h

theorem ite {condition condition' : Prop} [Decidable condition] [Decidable condition']
    (hcondition : condition' ↔ condition) {first' : Except ε β} {second' : Except ε' γ}
    (h : Alike cause related first second) (h' : Alike cause related first' second') :
    Alike cause related (if condition then first else first')
      (if condition' then second else second') := by
  by_cases hholds : condition
  · rw [if_pos hholds, if_pos (hcondition.mpr hholds)]
    exact h
  · rw [if_neg hholds, if_neg (mt hcondition.mp hholds)]
    exact h'

end Alike

/-! ## Computations -/

/-- From any two states, the first one such that `kept` holds, the results are
alike.  Values leave `kept` true; the cause of two failures may refer to the
state that the first one leaves behind. -/
def Eval.Echoes {σ σ' α β γ : Type} (kept : σ → Prop)
    (cause : σ → Failure α → Failure α → Prop) (related : β → γ → Prop)
    (act : Eval σ α β) (other : Eval σ' α γ) : Prop :=
  ∀ state state', kept state →
    Alike (cause (act.outcome state).2)
      (fun value value' => related value value' ∧ kept (act.outcome state).2)
      (act.outcome state).1 (other.outcome state').1

namespace Eval.Echoes

variable {σ σ' τ τ' α β γ β' γ' : Type}
variable {kept : σ → Prop} {cause : σ → Failure α → Failure α → Prop}
variable {related : β → γ → Prop} {related' : β' → γ' → Prop}
variable {act : Eval σ α β} {other : Eval σ' α γ}

theorem ofExcept {result : Except (Failure α) β} {result' : Except (Failure α) γ}
    (h : ∀ state, kept state → Alike (cause state) related result result') :
    Echoes kept cause related (.ofExcept result : Eval σ α β)
      (.ofExcept result' : Eval σ' α γ) :=
  fun state _ hkept =>
    (h state hkept).imp (fun _ _ h => h) fun _ _ hrelated => ⟨hrelated, hkept⟩

theorem pure {value : β} {value' : γ} (h : related value value') :
    Echoes kept cause related (pure value : Eval σ α β) (pure value' : Eval σ' α γ) :=
  ofExcept fun _ _ => .ok h

theorem throw {failure failure' : Failure α}
    (h : ∀ state, kept state → cause state failure failure') :
    Echoes kept cause related (throw failure : Eval σ α β)
      (throw failure' : Eval σ' α γ) :=
  ofExcept fun state hkept => .error (h state hkept)

theorem bind {next : β → Eval σ α β'} {next' : γ → Eval σ' α γ'}
    (h : Echoes kept cause related act other)
    (hnext : ∀ value value', related value value' →
      Echoes kept cause related' (next value) (next' value')) :
    Echoes kept cause related' (act >>= next) (other >>= next') := by
  intro state state' hkept
  have halike := h state state' hkept
  rw [outcome_bind, outcome_bind]
  generalize act.outcome state = ended at halike
  generalize other.outcome state' = ended' at halike
  obtain ⟨result, after⟩ := ended
  obtain ⟨result', after'⟩ := ended'
  cases halike with
  | ok h => exact hnext _ _ h.1 after after' h.2
  | error h => exact .error h

theorem ite {condition condition' : Prop} [Decidable condition] [Decidable condition']
    (hcondition : condition' ↔ condition) {act' : Eval σ α β} {other' : Eval σ' α γ}
    (h : Echoes kept cause related act other)
    (h' : Echoes kept cause related act' other') :
    Echoes kept cause related (if condition then act else act')
      (if condition' then other else other') := by
  by_cases hholds : condition
  · rw [if_pos hholds, if_pos (hcondition.mpr hholds)]
    exact h
  · rw [if_neg hholds, if_neg (mt hcondition.mp hholds)]
    exact h'

theorem beneath (h : Echoes kept cause related act other) :
    Echoes (fun state : τ × σ => kept state.2) (fun state => cause state.2) related
      act.beneath (other.beneath : Eval (τ' × σ') α γ) :=
  fun state state' => h state.2 state'.2

end Eval.Echoes

end SecantDescent
