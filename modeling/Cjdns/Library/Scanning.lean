import Mathlib.Tactic

/-!
# Scanning for a pair

A list that contains a pair has a first one. A scanner that is behind the first symbol of the pair
looks at the next one, and forgets it: of two first symbols in a row, only one is noticed.
-/

namespace Cjdns.Scanning

variable {α : Type*}

/-- The place of the first pair: there is none that ends before it does. -/
theorem exists_first_pair {first second : α} {symbols : List α}
    (inside : [first, second] <:+: symbols) :
    ∃ front back, symbols = front ++ first :: second :: back ∧
      ¬[first, second] <:+: front ++ [first] := by
  classical
  induction symbols with
  | nil => exact absurd (List.infix_nil.mp inside) (List.cons_ne_nil _ _)
  | cons symbol symbols ih =>
      by_cases here : [first, second] <+: symbol :: symbols
      · rcases here with ⟨back, whole⟩
        refine ⟨[], back, whole.symm, fun short => ?_⟩
        exact absurd short.length_le (by simp)
      · rcases ih ((List.infix_cons_iff.mp inside).resolve_left here) with
          ⟨front, back, rfl, none⟩
        refine ⟨symbol :: front, back, rfl, fun earlier => ?_⟩
        rw [List.cons_append, List.infix_cons_iff] at earlier
        rcases earlier with early | early
        · apply here
          rw [List.cons_prefix_cons] at early ⊢
          refine ⟨early.1, ?_⟩
          have longer : front ++ [first] <+: front ++ first :: second :: back :=
            ⟨second :: back, by simp⟩
          exact early.2.trans longer
        · exact none early

/-- A list with as many of one symbol at its end as there are -/
theorem exists_run (symbol : α) (symbols : List α) :
    ∃ front number, symbols = front ++ List.replicate number symbol ∧
      front.getLast? ≠ some symbol := by
  classical
  induction symbols using List.reverseRecOn with
  | nil => exact ⟨[], 0, rfl, by simp⟩
  | append_singleton symbols last ih =>
      by_cases same : last = symbol
      · rcases ih with ⟨front, number, rfl, ends⟩
        refine ⟨front, number + 1, ?_, ends⟩
        rw [same, List.append_assoc, List.replicate_succ']
      · refine ⟨symbols ++ [last], 0, by simp, ?_⟩
        simpa using same

/-- There are no pairs in a run of the first symbol. -/
theorem not_pair_append_replicate {first second : α} (apart : second ≠ first) {front : List α}
    (none : ¬[first, second] <:+: front) (number : ℕ) :
    ¬[first, second] <:+: front ++ List.replicate number first := by
  induction number with
  | zero => simpa using none
  | succ number ih =>
      rw [List.replicate_succ', ← List.append_assoc, List.infix_concat_iff, not_or]
      refine ⟨?_, ih⟩
      rintro ⟨before, whole⟩
      have last := congrArg List.getLast? whole
      simp at last
      exact apart last

variable [DecidableEq α]

/-- Whether a scanner is behind the first symbol, after it has looked at the next one -/
def turn (first : α) (behind : Bool) (next : α) : Bool :=
  !behind && next = first

theorem foldl_turn_of_ends {first : α} {front : List α} (ends : front.getLast? ≠ some first) :
    front.foldl (turn first) false = false := by
  induction front using List.reverseRecOn with
  | nil => rfl
  | append_singleton front last _ =>
      have other : last ≠ first := by simpa using ends
      simp [turn, other]

/-- Two first symbols in a row are as good as none. -/
theorem foldl_turn_replicate (first : α) (pairs : ℕ) :
    (List.replicate (2 * pairs) first).foldl (turn first) false = false := by
  induction pairs with
  | zero => rfl
  | succ pairs ih =>
      rw [Nat.mul_succ, List.replicate_succ, List.replicate_succ, List.foldl_cons, List.foldl_cons]
      simpa [turn] using ih

end Cjdns.Scanning
