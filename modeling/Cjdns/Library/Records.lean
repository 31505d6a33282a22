import Mathlib.Tactic

/-!
# Records of one size

A list of records, each written in the same number of elements: a record is found at a multiple of
the size.
-/

namespace Records

variable {α β : Type*} {write : α → List β} {size : ℕ} {records : List α} {record : α}
  {index count : ℕ}

theorem length_flatMap (sized : ∀ record, (write record).length = size) :
    (records.flatMap write).length = size * records.length := by
  induction records with
  | nil => simp
  | cons record records ih =>
      rw [List.flatMap_cons, List.length_append, sized, ih, List.length_cons]
      ring

theorem drop_flatMap (sized : ∀ record, (write record).length = size) :
    (records.flatMap write).drop (size * index) = (records.drop index).flatMap write := by
  induction index generalizing records with
  | zero => rfl
  | succ index ih =>
      cases records with
      | nil => simp
      | cons record records =>
          rw [List.flatMap_cons, List.drop_succ_cons, ← ih, Nat.mul_succ, Nat.add_comm,
            ← List.drop_drop, List.drop_left' (sized record)]

/-- The front of the record at an index -/
theorem take_drop_flatMap (sized : ∀ record, (write record).length = size)
    (found : records[index]? = some record) (front : count ≤ size) :
    ((records.flatMap write).drop (size * index)).take count = (write record).take count := by
  rcases List.getElem?_eq_some_iff.mp found with ⟨inside, rfl⟩
  rw [drop_flatMap sized, List.drop_eq_getElem_cons inside, List.flatMap_cons,
    List.take_append_of_le_length (by rw [sized]; exact front)]

/-- There is a whole record at an index. -/
theorem inside_flatMap (sized : ∀ record, (write record).length = size)
    (found : records[index]? = some record) :
    size * index + size ≤ (records.flatMap write).length := by
  rcases List.getElem?_eq_some_iff.mp found with ⟨inside, rfl⟩
  rw [length_flatMap sized, ← Nat.mul_succ]
  exact Nat.mul_le_mul_left size inside

end Records
