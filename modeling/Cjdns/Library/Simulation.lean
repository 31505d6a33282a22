import Cjdns.Library.Transition

/-!
# Simulations

A transition system simulates another one if a relation between the states can be kept up: every
guarded step of the one is matched by some guarded steps of the other, possibly none. Then whatever
the one can reach, the other can reach a related state.
-/

namespace TransitionSystem

variable {State Event Abstract Label : Type*}

/-- A guarded step on whatever event -/
def Steps (system : TransitionSystem State Event) (guard : State → Event → Prop)
    (before after : State) : Prop :=
  ∃ event, guard before event ∧ system.step before event after

variable {concrete : TransitionSystem State Event} {guard : State → Event → Prop}
  {abstract : TransitionSystem Abstract Label} {condition : Abstract → Label → Prop}
  {relates : State → Abstract → Prop}

/-- A run goes on from a reachable state. -/
theorem Reachable.trans {before after : State} (reachable : concrete.Reachable guard before)
    (run : Relation.ReflTransGen (concrete.Steps guard) before after) :
    concrete.Reachable guard after := by
  induction run with
  | refl => exact reachable
  | tail _ taken ih =>
      rcases taken with ⟨event, met, step⟩
      exact .step ih met step

variable (concrete guard abstract condition relates) in
/-- The relation holds initially, and every guarded step is matched by some guarded steps. The state
to match from is a reachable one, so that its invariants can be used. -/
structure IsSimulation : Prop where
  initial : ∀ {state}, concrete.initial state →
    ∃ image, abstract.initial image ∧ relates state image
  step : ∀ {before event after image}, relates before image →
    abstract.Reachable condition image → guard before event →
    concrete.step before event after →
    ∃ next, Relation.ReflTransGen (abstract.Steps condition) image next ∧ relates after next

/-- The simulation rule -/
theorem Reachable.simulated {state : State} (reachable : concrete.Reachable guard state)
    (simulates : IsSimulation concrete guard abstract condition relates) :
    ∃ image, abstract.Reachable condition image ∧ relates state image := by
  induction reachable with
  | initial starts =>
      rcases simulates.initial starts with ⟨image, begins, related⟩
      exact ⟨image, .initial begins, related⟩
  | step _ met taken ih =>
      rcases ih with ⟨image, reaches, related⟩
      rcases simulates.step related reaches met taken with ⟨next, run, still⟩
      exact ⟨next, reaches.trans run, still⟩

end TransitionSystem
