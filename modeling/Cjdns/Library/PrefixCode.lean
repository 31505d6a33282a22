import Mathlib.Tactic

/-!
# Prefix codes

A code is a prefix code if no codeword can be taken for another one, whatever is behind it. Then a
text of codewords is read in one way only, and where a part of it ends at a codeword, the rest is a
text of codewords, too.
-/

variable {Symbol Letter : Type*}

/-- No codeword begins another one, and none is empty. -/
structure IsPrefixCode (encode : Symbol → List Letter) : Prop where
  ne_nil : ∀ symbol, encode symbol ≠ []
  unique : ∀ {first second rest other}, encode first ++ rest = encode second ++ other →
    first = second

namespace IsPrefixCode

variable {encode : Symbol → List Letter} (code : IsPrefixCode encode)

include code

/-- What is behind a codeword is the same as well. -/
theorem cancel {first second : Symbol} {rest other : List Letter}
    (same : encode first ++ rest = encode second ++ other) : first = second ∧ rest = other := by
  have equal := code.unique same
  subst equal
  exact ⟨rfl, List.append_cancel_left same⟩

theorem eq_nil_of_flatMap {symbols : List Symbol} (empty : symbols.flatMap encode = []) :
    symbols = [] := by
  cases symbols with
  | nil => rfl
  | cons symbol symbols =>
      rw [List.flatMap_cons, List.append_eq_nil_iff] at empty
      exact absurd empty.1 (code.ne_nil symbol)

/-- Where the beginning of a text is a text itself, so is the rest. -/
theorem split {front symbols : List Symbol} {rest : List Letter}
    (same : front.flatMap encode ++ rest = symbols.flatMap encode) :
    ∃ behind, symbols = front ++ behind ∧ rest = behind.flatMap encode := by
  induction front generalizing symbols with
  | nil => exact ⟨symbols, rfl, same⟩
  | cons first front ih =>
      cases symbols with
      | nil =>
          rw [List.flatMap_cons, List.flatMap_nil, List.append_assoc,
            List.append_eq_nil_iff] at same
          exact absurd same.1 (code.ne_nil first)
      | cons symbol symbols =>
          rw [List.flatMap_cons, List.flatMap_cons, List.append_assoc] at same
          rcases code.cancel same with ⟨rfl, equal⟩
          rcases ih equal with ⟨behind, rfl, whole⟩
          exact ⟨behind, rfl, whole⟩

end IsPrefixCode
