import Mathlib.Tactic

/-!
# Removing by moving the last element

An array without order drops an element by moving the last one into its place. The
elements in front of that place stay where they are, and as a multiset the array loses
the one element.
-/

namespace Cjdns.SwapRemove

variable {α β : Type*}

/-- The array without the element at an index; the last element is moved into its place. -/
def swapRemove (index : ℕ) (elements : List α) : List α :=
  match elements.getLast? with
  | none => elements
  | some last => (elements.set index last).dropLast

@[simp]
theorem swapRemove_nil (index : ℕ) : swapRemove index ([] : List α) = [] :=
  rfl

@[simp]
theorem swapRemove_concat (index : ℕ) (front : List α) (last : α) :
    swapRemove index (front ++ [last]) = front.set index last := by
  simp only [swapRemove, List.getLast?_concat, List.set_append]
  split_ifs with inside
  · rw [List.dropLast_concat]
  · have same : [last].set (index - front.length) last = [last] := by
      cases index - front.length <;> rfl
    rw [same, List.dropLast_concat, List.set_eq_of_length_le (not_lt.mp inside)]

@[simp]
theorem length_swapRemove (index : ℕ) (elements : List α) :
    (swapRemove index elements).length = elements.length - 1 := by
  rcases List.eq_nil_or_concat' elements with rfl | ⟨front, last, rfl⟩
  · rfl
  · simp

theorem map_swapRemove (assign : α → β) (index : ℕ) (elements : List α) :
    (swapRemove index elements).map assign = swapRemove index (elements.map assign) := by
  rcases List.eq_nil_or_concat' elements with rfl | ⟨front, last, rfl⟩
  · rfl
  · simp [List.map_set]

/-- Nothing moves in front of the place. -/
theorem take_swapRemove {index : ℕ} {elements : List α} (inside : index < elements.length) :
    (swapRemove index elements).take index = elements.take index := by
  rcases List.eq_nil_or_concat' elements with rfl | ⟨front, last, rfl⟩
  · rfl
  · rw [List.length_append, List.length_singleton] at inside
    rw [swapRemove_concat, List.take_set_of_le le_rfl,
      List.take_append_of_le_length (Nat.lt_succ_iff.mp inside)]

/-- The array loses one element. -/
theorem cons_swapRemove_perm {index : ℕ} {elements : List α} {element : α}
    (found : elements[index]? = some element) :
    (element :: swapRemove index elements).Perm elements := by
  rcases List.eq_nil_or_concat' elements with rfl | ⟨front, last, rfl⟩
  · simp at found
  · rw [swapRemove_concat]
    by_cases inside : index < front.length
    · rw [List.getElem?_append_left inside, List.getElem?_eq_getElem inside,
        Option.some.injEq] at found
      subst found
      calc (front[index] :: front.set index last).Perm
              (front[index] :: last :: front.eraseIdx index) :=
            (List.set_perm_cons_eraseIdx inside last).cons _
        _ |>.Perm (last :: front[index] :: front.eraseIdx index) := .swap ..
        _ |>.Perm (last :: front) := (List.getElem_cons_eraseIdx_perm inside).cons _
        _ |>.Perm (front ++ [last]) := (List.perm_append_singleton last front).symm
    · have atEnd : index = front.length := by
        have bound := (List.getElem?_eq_some_iff.mp found).1
        rw [List.length_append, List.length_singleton] at bound
        omega
      subst atEnd
      rw [List.getElem?_concat_length, Option.some.injEq] at found
      subst found
      rw [List.set_eq_of_length_le le_rfl]
      exact (List.perm_append_singleton last front).symm

/-- Behind the place the array loses the one element, in some order. -/
theorem drop_swapRemove_perm {index : ℕ} {elements : List α} (inside : index < elements.length) :
    ((swapRemove index elements).drop index).Perm (elements.drop (index + 1)) := by
  have whole := cons_swapRemove_perm (List.getElem?_eq_getElem inside)
  rw [← List.take_append_drop index (swapRemove index elements), take_swapRemove inside] at whole
  have split : elements =
      elements.take index ++ elements[index] :: elements.drop (index + 1) := by
    rw [← List.drop_eq_getElem_cons inside, List.take_append_drop]
  apply List.Perm.cons_inv (a := elements[index])
  apply (List.perm_append_left_iff (elements.take index)).mp
  rw [← split]
  exact List.perm_middle.trans whole

theorem mem_of_mem_swapRemove {index : ℕ} {elements : List α} {element : α}
    (kept : element ∈ swapRemove index elements) : element ∈ elements := by
  rcases List.eq_nil_or_concat' elements with rfl | ⟨front, last, rfl⟩
  · exact kept
  · rw [swapRemove_concat] at kept
    rcases List.mem_or_eq_of_mem_set kept with earlier | rfl
    · exact List.mem_append_left _ earlier
    · exact List.mem_append_right _ (List.mem_singleton_self _)

/-- A symmetric relation between all elements survives the removal. -/
theorem pairwise_swapRemove {related : α → α → Prop} {index : ℕ} {elements : List α}
    (symmetric : ∀ {first second}, related first second → related second first)
    (holds : elements.Pairwise related) : (swapRemove index elements).Pairwise related := by
  cases found : elements[index]? with
  | none =>
      rw [List.getElem?_eq_none_iff] at found
      rcases List.eq_nil_or_concat' elements with rfl | ⟨front, last, rfl⟩
      · exact holds
      · rw [List.length_append] at found
        rw [swapRemove_concat, List.set_eq_of_length_le (by omega)]
        exact (List.pairwise_append.mp holds).1
  | some element =>
      have whole := (cons_swapRemove_perm found).symm.pairwise holds symmetric
      exact (List.pairwise_cons.mp whole).2

end Cjdns.SwapRemove
