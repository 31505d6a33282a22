import Mathlib.Tactic

/-!
# One's complement sums

A sum of digits is folded by adding what is above a digit to the digit. Folding keeps the residue
modulo the greatest digit, and of its two representations, zero and the greatest digit, it keeps
zero for the sum zero alone. Hence a sum folds to the greatest digit exactly if it is a positive
multiple of it.
-/

namespace OnesComplement

variable {base number folded : ℕ}

/-- The carries of a number are added to its lowest digit. -/
def carry (base number : ℕ) : ℕ :=
  number / base + number % base

theorem carry_modEq (large : 0 < base) : carry base number ≡ number [MOD base - 1] := by
  have digits := Nat.div_add_mod number base
  have one : base ≡ 1 [MOD base - 1] := Nat.modEq_sub large
  calc carry base number
    _ = 1 * (number / base) + number % base := by rw [carry, Nat.one_mul]
    _ ≡ base * (number / base) + number % base [MOD base - 1] :=
      (one.symm.mul_right _).add_right _
    _ = number := digits

theorem carry_pos_iff (large : 0 < base) : 0 < carry base number ↔ 0 < number := by
  rw [carry]
  constructor
  · intro carries
    by_contra none
    rw [Nat.eq_zero_of_not_pos none, Nat.zero_div, Nat.zero_mod] at carries
    exact absurd carries (lt_irrefl _)
  · intro positive
    rcases Nat.eq_zero_or_pos (number % base) with whole | digit
    · have below := Nat.le_of_dvd positive (Nat.dvd_of_mod_eq_zero whole)
      exact Nat.add_pos_left (Nat.div_pos below large) _
    · exact Nat.add_pos_right _ digit

/-- A number of one digit that a number can be folded to -/
structure Folds (base number folded : ℕ) : Prop where
  digit : folded < base
  modEq : folded ≡ number [MOD base - 1]
  pos_iff : 0 < folded ↔ 0 < number

namespace Folds

theorem of_digit (digit : number < base) : Folds base number number :=
  ⟨digit, Nat.ModEq.rfl, Iff.rfl⟩

/-- Folding may begin with a carry. -/
theorem of_carry (large : 0 < base) (folds : Folds base (carry base number) folded) :
    Folds base number folded where
  digit := folds.digit
  modEq := folds.modEq.trans (carry_modEq large)
  pos_iff := folds.pos_iff.trans (carry_pos_iff large)

theorem eq_greatest_iff (folds : Folds base number folded) (two : 1 < base) :
    folded = base - 1 ↔ 0 < number ∧ base - 1 ∣ number := by
  rw [← folds.pos_iff, ← folds.modEq.dvd_iff dvd_rfl]
  constructor
  · intro greatest
    exact ⟨by omega, greatest.symm.dvd⟩
  · rintro ⟨positive, multiple⟩
    have above := Nat.le_of_dvd positive multiple
    have digit := folds.digit
    omega

/-- A number and the complement of what it folds to -/
theorem add_complement (folds : Folds base number folded) :
    base - 1 ∣ number + (base - 1 - folded) := by
  have digit := folds.digit
  have whole : folded + (base - 1 - folded) = base - 1 := by omega
  have same := folds.modEq.add_right (base - 1 - folded)
  rw [whole] at same
  exact (same.dvd_iff dvd_rfl).mp dvd_rfl

end Folds

end OnesComplement
