import Mathlib.Tactic

/-!
# Runs with fuel

What a run that is given fuel comes to once there is enough of it.
-/

namespace Fuel

variable {α β : Type}

/-- With enough fuel, the run has this result. -/
def Settles (run : ℕ → α) (result : α) : Prop :=
  ∃ enough, ∀ fuel ≥ enough, run fuel = result

namespace Settles

theorem of_eq {run : ℕ → α} {result : α} (same : ∀ fuel, run fuel = result) :
    Settles run result :=
  ⟨0, fun fuel _ => same fuel⟩

theorem of_succ_eq {run : ℕ → α} {result : α} (same : ∀ fuel, run (fuel + 1) = result) :
    Settles run result :=
  ⟨1, fun fuel more => by
    rcases fuel with _ | fuel
    · omega
    · exact same fuel⟩

/-- A run that makes a step before another one -/
theorem succ {run rest : ℕ → α} {result : α} (settles : Settles rest result)
    (step : ∀ fuel, run (fuel + 1) = rest fuel) : Settles run result := by
  rcases settles with ⟨enough, same⟩
  refine ⟨enough + 1, fun fuel more => ?_⟩
  rcases fuel with _ | fuel
  · omega
  · rw [step, same fuel (by omega)]

theorem map {run : ℕ → α} {result : α} (f : α → β) (settles : Settles run result) :
    Settles (fun fuel => f (run fuel)) (f result) := by
  rcases settles with ⟨enough, same⟩
  exact ⟨enough, fun fuel more => congrArg f (same fuel more)⟩

/-- A computation that goes on with what another one returns -/
theorem bind {ε : Type} {run : ℕ → Except ε α} {next : ℕ → α → Except ε β} {value : α}
    {result : Except ε β} (settles : Settles run (.ok value))
    (rest : Settles (fun fuel => next fuel value) result) :
    Settles (fun fuel => run fuel >>= next fuel) result := by
  rcases settles with ⟨enough, same⟩
  rcases rest with ⟨further, equal⟩
  refine ⟨max enough further, fun fuel more => ?_⟩
  dsimp only
  rw [same fuel (le_trans (le_max_left _ _) more)]
  exact equal fuel (le_trans (le_max_right _ _) more)

theorem unique {run : ℕ → α} {one two : α} (first : Settles run one) (second : Settles run two) :
    one = two := by
  rcases first with ⟨enough, same⟩
  rcases second with ⟨further, equal⟩
  rw [← same (max enough further) (le_max_left _ _), equal _ (le_max_right _ _)]

end Settles

/-- More fuel does not change a result that is not for want of it. -/
def Stable (run : ℕ → α) (empty : α) : Prop :=
  ∀ fuel, run fuel ≠ empty → run (fuel + 1) = run fuel

/-- A stable run settles on a result that is not for want of fuel. -/
theorem Stable.settles {run : ℕ → α} {empty : α} (stable : Stable run empty) {fuel : ℕ}
    (fine : run fuel ≠ empty) : Settles run (run fuel) := by
  have onward : ∀ more, run (fuel + more) = run fuel := by
    intro more
    induction more with
    | zero => rfl
    | succ more ih =>
        rw [← Nat.add_assoc, stable _ (by rw [ih]; exact fine), ih]
  refine ⟨fuel, fun further more => ?_⟩
  rw [← onward (further - fuel), Nat.add_sub_cancel' more]

end Fuel
