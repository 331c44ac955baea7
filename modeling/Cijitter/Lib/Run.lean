import Mathlib

/-! Runs of a deterministic step function over a list of actions. A state is
reachable when some run from the initial state ends in it; a predicate that
holds initially and is kept by every step holds in every reachable state.
Nondeterminism of a modelled component is carried by the actions themselves,
so one step function covers every interleaving and every scheduling choice. -/

set_option autoImplicit false

namespace StepRun

variable {State Action : Type}

def run (step : State → Action → State) (initial : State) (actions : List Action) : State :=
  actions.foldl step initial

@[simp] theorem run_nil (step : State → Action → State) (initial : State) :
    run step initial [] = initial := rfl

@[simp] theorem run_cons (step : State → Action → State) (initial : State)
    (action : Action) (actions : List Action) :
    run step initial (action :: actions) = run step (step initial action) actions := rfl

theorem run_append (step : State → Action → State) (initial : State)
    (first second : List Action) :
    run step initial (first ++ second) = run step (run step initial first) second :=
  List.foldl_append

@[simp] theorem run_concat (step : State → Action → State) (initial : State)
    (actions : List Action) (action : Action) :
    run step initial (actions ++ [action]) = step (run step initial actions) action := by
  rw [run_append]
  rfl

/-- States that some run of `step` from `initial` ends in. -/
def Reachable (step : State → Action → State) (initial : State) (state : State) : Prop :=
  ∃ actions, run step initial actions = state

theorem Reachable.initial (step : State → Action → State) (initial : State) :
    Reachable step initial initial :=
  ⟨[], rfl⟩

theorem Reachable.step {step : State → Action → State} {initial state : State}
    (reachable : Reachable step initial state) (action : Action) :
    Reachable step initial (step state action) := by
  obtain ⟨actions, ran⟩ := reachable
  exact ⟨actions ++ [action], by rw [run_concat, ran]⟩

theorem run_invariant {step : State → Action → State} (invariant : State → Prop)
    (preserved : ∀ state action, invariant state → invariant (step state action))
    {initial : State} (holds : invariant initial) (actions : List Action) :
    invariant (run step initial actions) := by
  induction actions generalizing initial with
  | nil => exact holds
  | cons action actions ih => exact ih (preserved initial action holds)

theorem Reachable.invariant {step : State → Action → State} {initial : State}
    (invariant : State → Prop) (holds : invariant initial)
    (preserved : ∀ state action, Reachable step initial state → invariant state →
      invariant (step state action))
    {state : State} (reachable : Reachable step initial state) : invariant state := by
  obtain ⟨actions, rfl⟩ := reachable
  have strengthened := @run_invariant State Action step
    (fun current => Reachable step initial current ∧ invariant current)
    (fun current action ⟨reached, valid⟩ =>
      ⟨reached.step action, preserved current action reached valid⟩)
    initial ⟨Reachable.initial step initial, holds⟩ actions
  exact strengthened.2

/-- Every action of a run is allowed in the state it is taken in. -/
def Allowed (allowed : State → Action → Prop) (step : State → Action → State) : State → List Action → Prop
  | _, [] => True
  | state, action :: actions => allowed state action ∧ Allowed allowed step (step state action) actions

instance Allowed.decidable {allowed : State → Action → Prop} [decidable : ∀ state action, Decidable (allowed state action)]
    (step : State → Action → State) : ∀ state actions, Decidable (Allowed allowed step state actions)
  | _, [] => isTrue trivial
  | state, action :: actions =>
      @instDecidableAnd _ _ (decidable state action) (Allowed.decidable step (step state action) actions)

theorem Allowed.invariant {allowed : State → Action → Prop} {step : State → Action → State}
    (invariant : State → Prop)
    (preserved : ∀ state action, invariant state → allowed state action → invariant (step state action))
    {state : State} {actions : List Action} (holds : invariant state)
    (allowedRun : Allowed allowed step state actions) : invariant (run step state actions) := by
  induction actions generalizing state with
  | nil => exact holds
  | cons action actions ih =>
      obtain ⟨allowedFirst, allowedRest⟩ := allowedRun
      exact ih (preserved state action holds allowedFirst) allowedRest

theorem run_simulation {Abstract : Type} {step : State → Action → State}
    {abstractStep : Abstract → Action → Abstract} {allowed : State → Action → Prop}
    (related : State → Abstract → Prop)
    (preserved : ∀ state abstract action, related state abstract → allowed state action →
      related (step state action) (abstractStep abstract action))
    {state : State} {abstract : Abstract} {actions : List Action} (holds : related state abstract)
    (allowedRun : Allowed allowed step state actions) :
    related (run step state actions) (run abstractStep abstract actions) := by
  induction actions generalizing state abstract with
  | nil => exact holds
  | cons action actions ih =>
      obtain ⟨allowedFirst, allowedRest⟩ := allowedRun
      rw [run_cons, run_cons]
      exact ih (preserved state abstract action holds allowedFirst) allowedRest

end StepRun
