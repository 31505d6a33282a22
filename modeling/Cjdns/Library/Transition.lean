import Mathlib.Tactic

/-!
# Transition systems

A transition system is a set of initial states and a labelled step relation.
Runs may be restricted by a guard on the state before a step and its event, so
that a result about the runs that avoid some step, and a result about all runs,
are instances of the same rules.
-/

/-- A labelled transition system. -/
structure TransitionSystem (State Event : Type*) where
  initial : State → Prop
  step : State → Event → State → Prop

namespace TransitionSystem

variable {State Event : Type*} {system : TransitionSystem State Event}
  {guard : State → Event → Prop}

variable (system guard) in
/-- The states at the end of the runs whose steps all meet the guard. -/
inductive Reachable : State → Prop where
  | initial {state : State} (starts : system.initial state) : Reachable state
  | step {before after : State} {event : Event} (earlier : Reachable before)
      (met : guard before event) (taken : system.step before event after) : Reachable after

variable (system guard) in
/-- An invariant holds initially and is preserved by every guarded step. -/
structure IsInvariant (invariant : State → Prop) : Prop where
  initial : ∀ {state}, system.initial state → invariant state
  step : ∀ {before event after}, invariant before → guard before event →
    system.step before event after → invariant after

/-- The invariant rule. -/
theorem Reachable.invariant {state : State} {invariant : State → Prop}
    (reachable : system.Reachable guard state) (preserved : system.IsInvariant guard invariant) :
    invariant state := by
  induction reachable with
  | initial starts => exact preserved.initial starts
  | step _ met taken ih => exact preserved.step ih met taken

/-- A run of a step function keeps what every step of it keeps. -/
theorem invariant_of_foldlM {next : State → Event → Option State} {invariant : State → Prop}
    {events : List Event} {start stop : State}
    (keeps : ∀ {before after}, ∀ event ∈ events, invariant before →
      next before event = some after → invariant after)
    (run : events.foldlM next start = some stop) (starts : invariant start) : invariant stop := by
  induction events generalizing start with
  | nil =>
      rw [List.foldlM_nil, Option.pure_def, Option.some.injEq] at run
      exact run ▸ starts
  | cons event events ih =>
      rw [List.foldlM_cons, Option.bind_eq_bind, Option.bind_eq_some_iff] at run
      rcases run with ⟨middle, taken, run⟩
      have first := keeps event List.mem_cons_self starts taken
      exact ih (fun event inside => keeps event (List.mem_cons_of_mem _ inside)) run first

/-- A run of a step function that looks at the guard -/
theorem Reachable.foldlM {next : State → Event → Option State} {events : List Event}
    {start stop : State} (reachable : system.Reachable guard start)
    (steps : ∀ {before after}, ∀ event ∈ events, system.Reachable guard before →
      next before event = some after → guard before event ∧ system.step before event after)
    (run : events.foldlM next start = some stop) : system.Reachable guard stop := by
  refine invariant_of_foldlM (fun event inside earlier taken => ?_) run reachable
  rcases steps event inside earlier taken with ⟨met, taken⟩
  exact earlier.step met taken

/-- A run of a step function over a list of events -/
theorem Reachable.run {next : State → Event → Option State} {events : List Event}
    {start stop : State} (reachable : system.Reachable guard start)
    (steps : ∀ {before event after}, next before event = some after →
      system.step before event after)
    (met : ∀ before, ∀ event ∈ events, guard before event)
    (run : events.foldlM next start = some stop) : system.Reachable guard stop :=
  reachable.foldlM (fun event inside _ taken => ⟨met _ event inside, steps taken⟩) run

/-- Fewer restrictions allow more runs. -/
theorem Reachable.mono {state : State} {weaker : State → Event → Prop}
    (reachable : system.Reachable guard state)
    (weakens : ∀ state event, guard state event → weaker state event) :
    system.Reachable weaker state := by
  induction reachable with
  | initial starts => exact .initial starts
  | step _ met taken ih => exact .step ih (weakens _ _ met) taken

end TransitionSystem
