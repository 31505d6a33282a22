import Mathlib.Tactic

/-!
# Checked computations

A computation that a fault may stop: an assertion that fails, a null pointer that is
followed, a read past the end. `Safe` says that there is no fault. The rules take it
apart along the computation.
-/

/-- What may stop a computation -/
inductive Fault where
  | assertion
  | nullPointer
  | outOfBounds
deriving DecidableEq

abbrev Checked (α : Type*) := Except Fault α

namespace Checked

universe u

variable {α β : Type u}

/-- Go on only under a condition. -/
def require (fault : Fault) (condition : Prop) [Decidable condition] : Checked Unit :=
  if condition then .ok () else .error fault

/-- Follow a pointer. -/
def deref : Option α → Checked α
  | none => .error .nullPointer
  | some value => .ok value

/-- Read a number of elements from an offset on. -/
def readAt (elements : List α) (offset count : ℕ) : Checked (List α) :=
  if offset + count ≤ elements.length then .ok ((elements.drop offset).take count)
  else .error .outOfBounds

/-- Read one element. -/
def elementAt (elements : List α) (index : ℕ) : Checked α :=
  match elements[index]? with
  | none => .error .outOfBounds
  | some element => .ok element

/-- The computation comes to its end. -/
def Safe (computation : Checked α) : Prop :=
  ∃ result, computation = .ok result

theorem safe_ok (value : α) : Safe (.ok value) :=
  ⟨value, rfl⟩

theorem not_safe_error (fault : Fault) : ¬ Safe (.error fault : Checked α) := by
  rintro ⟨result, impossible⟩
  cases impossible

instance : DecidablePred (Safe (α := α))
  | .ok value => isTrue (safe_ok value)
  | .error fault => isFalse (not_safe_error fault)

theorem bind_eq_ok {computation : Checked α} {next : α → Checked β} {result : β} :
    computation >>= next = .ok result ↔
      ∃ value, computation = .ok value ∧ next value = .ok result := by
  cases computation with
  | error fault => simp [bind, Except.bind]
  | ok value => simp [bind, Except.bind]

/-- A sequence is safe if its first part is, and the rest on what the first part gives. -/
theorem safe_bind_iff {computation : Checked α} {next : α → Checked β} :
    Safe (computation >>= next) ↔ ∃ value, computation = .ok value ∧ Safe (next value) := by
  simp only [Safe, bind_eq_ok]
  constructor
  · rintro ⟨result, value, first, rest⟩
    exact ⟨value, first, result, rest⟩
  · rintro ⟨value, first, result, rest⟩
    exact ⟨result, value, first, rest⟩

theorem readAt_eq_ok {elements read : List α} {offset count : ℕ} :
    readAt elements offset count = .ok read ↔
      offset + count ≤ elements.length ∧ (elements.drop offset).take count = read := by
  unfold readAt
  split_ifs with inside <;> simp [inside]

theorem elementAt_eq_ok {elements : List α} {index : ℕ} {element : α} :
    elementAt elements index = .ok element ↔ elements[index]? = some element := by
  unfold elementAt
  cases elements[index]? <;> simp

theorem safe_elementAt_iff {elements : List α} {index : ℕ} :
    Safe (elementAt elements index) ↔ index < elements.length := by
  simp only [Safe, elementAt_eq_ok]
  constructor
  · rintro ⟨element, found⟩
    exact (List.getElem?_eq_some_iff.mp found).1
  · intro inside
    exact ⟨elements[index], List.getElem?_eq_getElem inside⟩

end Checked
