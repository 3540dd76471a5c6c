import SecantDescent.Dense.Grid
import SecantDescent.Failure.Basic

/-!
# Objectives

An objective is what a minimisation knows about a function: its value, its
gradient and its Hessian, each as a callable.  A callable may fail, may answer
differently at every call, and may answer with a vector or a matrix of any
shape; what it remembers from call to call is a state of type `σ`.  The state
outlives a failure, so that a caller can look at it afterwards.

States are stacked in pairs: a wrapper that needs a state of its own puts it in
front of the state it wraps.
-/

namespace SecantDescent

/-- A computation with a state that either returns a value or fails; the state
is kept in both cases. -/
abbrev Eval (σ α β : Type) :=
  ExceptT (Failure α) (StateM σ) β

namespace Eval

variable {σ τ α β : Type}

def of (effect : σ → Except (Failure α) β × σ) : Eval σ α β :=
  ExceptT.mk effect

/-- Runs a computation from a state, giving its outcome and the state left
behind. -/
def outcome (act : Eval σ α β) (state : σ) : Except (Failure α) β × σ :=
  StateT.run (ExceptT.run act) state

def ofExcept (result : Except (Failure α) β) : Eval σ α β :=
  of fun state => (result, state)

/-- A computation carried out below another state, which it leaves alone. -/
def beneath (act : Eval σ α β) : Eval (τ × σ) α β :=
  of fun state =>
    let (result, below) := act.outcome state.2
    (result, (state.1, below))

def modifyTop (change : τ → τ) : Eval (τ × σ) α Unit :=
  of fun state => (.ok (), (change state.1, state.2))

def readTop : Eval (τ × σ) α τ :=
  of fun state => (.ok state.1, state)

@[simp] theorem outcome_of (effect : σ → Except (Failure α) β × σ) (state : σ) :
    (of effect).outcome state = effect state := rfl

@[simp] theorem outcome_pure (value : β) (state : σ) :
    (pure value : Eval σ α β).outcome state = (.ok value, state) := rfl

@[simp] theorem outcome_throw (failure : Failure α) (state : σ) :
    (throw failure : Eval σ α β).outcome state = (.error failure, state) := rfl

theorem outcome_bind {γ : Type} (act : Eval σ α β) (next : β → Eval σ α γ) (state : σ) :
    (act >>= next).outcome state =
      match act.outcome state with
      | (.ok value, after) => (next value).outcome after
      | (.error failure, after) => (.error failure, after) := by
  simp only [outcome, ExceptT.run_bind, StateT.run_bind]
  rcases hact : StateT.run (ExceptT.run act) state with ⟨result, after⟩
  cases result <;> simp <;> rfl

end Eval

structure Objective (σ α : Type) where
  cost : Array α → Eval σ α α
  gradient : Array α → Eval σ α (Array α)
  hessian : Array α → Eval σ α (DenseMatrix α)

namespace Objective

variable {σ τ α : Type}

/-- An objective used below a state that it does not know. -/
def beneath (f : Objective σ α) : Objective (τ × σ) α where
  cost x := (f.cost x).beneath
  gradient x := (f.gradient x).beneath
  hessian x := (f.hessian x).beneath

/-- The objective of three functions of the point alone, which answer the same
at every call and may refuse a point. -/
def ofFunctions (cost : Array α → Except (Failure α) α)
    (gradient : Array α → Except (Failure α) (Array α))
    (hessian : Array α → Except (Failure α) (DenseMatrix α)) : Objective σ α where
  cost x := .ofExcept (cost x)
  gradient x := .ofExcept (gradient x)
  hessian x := .ofExcept (hessian x)

end Objective

end SecantDescent
