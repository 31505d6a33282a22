import Cjdns.Library.Checked

/-!
# Searching in terminated texts

A search for a word in a text, from the front on. Both are said to end with a terminator, and
symbols are read one by one. So a text without a terminator does no harm if the word is in it.
-/

namespace Cjdns.TextSearch

variable {α : Type*}

/-- The word is at this place, and neither it nor a terminator is before. -/
structure IsFirst (terminator : α) (text word : List α) (place : ℕ) : Prop where
  here : word <+: text.drop place
  not_earlier : ∀ earlier < place, ¬word <+: text.drop earlier
  not_ended : terminator ∉ text.take place

variable {terminator first : α} {text word rest : List α} {place : ℕ}

/-- A word in front is the first one. -/
theorem isFirst_iff_of_front (begins : word <+: text) :
    IsFirst terminator text word place ↔ place = 0 := by
  constructor
  · intro isFirst
    by_contra later
    exact isFirst.not_earlier 0 (by omega) begins
  · rintro rfl
    exact ⟨begins, by simp, by simp⟩

/-- The search goes on with the rest of the text. -/
theorem isFirst_cons_iff (begins : ¬word <+: first :: text) :
    IsFirst terminator (first :: text) word place ↔
      ∃ later, place = later + 1 ∧ first ≠ terminator ∧ IsFirst terminator text word later := by
  constructor
  · rintro ⟨here, not_earlier, not_ended⟩
    rcases place with _ | later
    · exact absurd here begins
    · rw [List.take_succ_cons, List.mem_cons, not_or] at not_ended
      refine ⟨later, rfl, Ne.symm not_ended.1, here, fun earlier less => ?_, not_ended.2⟩
      simpa using not_earlier (earlier + 1) (by omega)
  · rintro ⟨later, rfl, other, here, not_earlier, not_ended⟩
    refine ⟨here, fun earlier less => ?_, by simp [Ne.symm other, not_ended]⟩
    rcases earlier with _ | earlier
    · exact begins
    · exact not_earlier earlier (by omega)

/-- The first place is not behind any other. -/
theorem IsFirst.le (isFirst : IsFirst terminator text word place) {other : ℕ}
    (inside : word <+: text.drop other) : place ≤ other := by
  by_contra behind
  exact isFirst.not_earlier other (by omega) inside

section Search

variable [DecidableEq α]

/-- Whether a text begins with the part of a word that is in front of the terminator -/
def beginsWith (terminator : α) : List α → List α → Checked Bool
  | _, [] => .error .outOfBounds
  | [], symbol :: _ => if symbol = terminator then .ok true else .error .outOfBounds
  | first :: text, symbol :: word =>
      if symbol = terminator then .ok true
      else if first = symbol then beginsWith terminator text word
      else .ok false

/-- The first place of a word in a text -/
def search (terminator : α) (word : List α) : List α → Checked (Option ℕ)
  | [] => (beginsWith terminator [] word).map fun _ => some 0
  | first :: text =>
      match beginsWith terminator (first :: text) word with
      | .error fault => .error fault
      | .ok true => .ok (some 0)
      | .ok false =>
          if first = terminator then .ok none
          else (search terminator word text).map (Option.map (· + 1))

/-- A word that is not longer than the text is compared within it. -/
theorem beginsWith_eq (whole : terminator ∉ word) (fits : word.length ≤ text.length) :
    beginsWith terminator text (word ++ terminator :: rest) = .ok (decide (word <+: text)) := by
  induction word generalizing text with
  | nil => cases text <;> simp [beginsWith]
  | cons symbol word ih =>
      rcases text with _ | ⟨first, text⟩
      · simp at fits
      rw [List.mem_cons, not_or] at whole
      rw [List.length_cons, List.length_cons] at fits
      rw [List.cons_append, beginsWith, if_neg (Ne.symm whole.1), ih whole.2 (by omega)]
      by_cases same : first = symbol
      · simp [same]
      · simp [same, Ne.symm same]

/-- A word that is in the text somewhere is searched for without leaving the text. -/
theorem exists_search (whole : terminator ∉ word) (inside : word <+: text.drop place) :
    ∃ found, search terminator (word ++ terminator :: rest) text = .ok found ∧
      ∀ other, found = some other ↔ IsFirst terminator text word other := by
  induction text generalizing place with
  | nil =>
      have empty : word = [] := by simpa using inside
      subst empty
      refine ⟨some 0, by simp [search, beginsWith, Except.map], fun other => ?_⟩
      rw [isFirst_iff_of_front (List.prefix_refl []), Option.some.injEq, eq_comm]
  | cons first text ih =>
      have fits : word.length ≤ (first :: text).length := by
        have shorter := inside.length_le
        rw [List.length_drop] at shorter
        omega
      rw [search, beginsWith_eq whole fits]
      by_cases begins : word <+: first :: text
      · refine ⟨some 0, by simp [begins], fun other => ?_⟩
        rw [isFirst_iff_of_front begins, Option.some.injEq, eq_comm]
      simp only [begins, decide_false]
      by_cases ends : first = terminator
      · refine ⟨none, by simp [ends], fun other => ?_⟩
        rw [isFirst_cons_iff begins]
        simp [ends]
      · rcases place with _ | place
        · exact absurd inside begins
        rcases ih inside with ⟨found, searched, found_iff⟩
        refine ⟨found.map (· + 1), by rw [if_neg ends, searched]; rfl, fun other => ?_⟩
        rw [isFirst_cons_iff begins, Option.map_eq_some_iff]
        simp only [found_iff]
        constructor
        · rintro ⟨later, isFirst, rfl⟩
          exact ⟨later, rfl, ends, isFirst⟩
        · rintro ⟨later, rfl, -, isFirst⟩
          exact ⟨later, isFirst, rfl⟩

end Search

end Cjdns.TextSearch
