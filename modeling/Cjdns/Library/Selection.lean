import Mathlib.Tactic
import Mathlib.Data.List.MinMax

/-!
# Selecting from a list

A scan that keeps one element, and replaces it unless the next one ranks below it,
ends with the last of the elements of highest rank. A scan that stops at the first
element without a property has the elements with it before that place, and the last one
with another property somewhere among them or nowhere.
-/

namespace Cjdns.Selection

variable {α β : Type*} [LinearOrder β]

/-- What a scan keeps after it has seen one more element -/
def keepBest (rank : α → β) (held : Option α) (next : α) : Option α :=
  match held with
  | none => some next
  | some best => if rank next < rank best then some best else some next

/-- The scan keeps what `argmax` finds from the end. -/
theorem foldl_keepBest (rank : α → β) (elements : List α) :
    elements.foldl (keepBest rank) none = elements.reverse.argmax rank := by
  induction elements using List.reverseRecOn with
  | nil => rfl
  | append_singleton elements last ih =>
      rw [List.foldl_append, ih, List.reverse_append, List.reverse_singleton,
        List.singleton_append, List.argmax_cons]
      cases elements.reverse.argmax rank <;> rfl

/-- A list up to the first element without a property -/
theorem exists_leading (property : α → Prop) (elements : List α) :
    ∃ leading rest, elements = leading ++ rest ∧ (∀ element ∈ leading, property element) ∧
      ∀ element ∈ rest.head?, ¬property element := by
  induction elements with
  | nil => exact ⟨[], [], rfl, fun _ inside => absurd inside List.not_mem_nil, by simp⟩
  | cons first elements ih =>
      by_cases holds : property first
      · rcases ih with ⟨leading, rest, rfl, all, stop⟩
        refine ⟨first :: leading, rest, rfl, fun element inside => ?_, stop⟩
        rcases List.mem_cons.mp inside with rfl | inside
        · exact holds
        · exact all element inside
      · exact ⟨[], first :: elements, rfl, fun _ inside => absurd inside List.not_mem_nil,
          by simpa using holds⟩

/-- A list around the last element with a property, if there is one -/
theorem forall_not_or_exists_last (property : α → Prop) (elements : List α) :
    (∀ element ∈ elements, ¬property element) ∨
      ∃ front last back, elements = front ++ last :: back ∧ property last ∧
        ∀ element ∈ back, ¬property element := by
  induction elements with
  | nil => exact Or.inl fun _ inside => absurd inside List.not_mem_nil
  | cons first elements ih =>
      rcases ih with without | ⟨front, last, back, rfl, holds, without⟩
      · by_cases holds : property first
        · exact Or.inr ⟨[], first, elements, rfl, holds, without⟩
        · left
          intro element inside
          rcases List.mem_cons.mp inside with rfl | inside
          · exact holds
          · exact without element inside
      · exact Or.inr ⟨first :: front, last, back, rfl, holds, without⟩

end Cjdns.Selection
