import Mathlib.Tactic

/-!
# Comparisons by sign

A comparator that returns a number below, at or above zero, as C has them. Numbers that are put
together of two parts are compared by their high parts first.
-/

namespace Comparison

variable {β : Type*} [LinearOrder β] {one two three : β}

/-- How two keys compare -/
def sign (one two : β) : ℤ :=
  if one < two then -1 else if one = two then 0 else 1

theorem sign_cases (one two : β) :
    (one < two ∧ sign one two = -1) ∨ (one = two ∧ sign one two = 0) ∨
      (two < one ∧ sign one two = 1) := by
  rcases lt_trichotomy one two with less | same | more
  · exact .inl ⟨less, if_pos less⟩
  · refine .inr (.inl ⟨same, ?_⟩)
    rw [sign, if_neg (not_lt.mpr same.ge), if_pos same]
  · refine .inr (.inr ⟨more, ?_⟩)
    rw [sign, if_neg more.asymm, if_neg more.ne']

theorem sign_neg_iff : sign one two < 0 ↔ one < two := by
  rcases sign_cases one two with ⟨less, is⟩ | ⟨same, is⟩ | ⟨more, is⟩ <;> rw [is]
  · exact iff_of_true (by decide) less
  · exact iff_of_false (by decide) (not_lt.mpr same.ge)
  · exact iff_of_false (by decide) more.asymm

theorem sign_eq_zero_iff : sign one two = 0 ↔ one = two := by
  rcases sign_cases one two with ⟨less, is⟩ | ⟨same, is⟩ | ⟨more, is⟩ <;> rw [is]
  · exact iff_of_false (by decide) less.ne
  · exact iff_of_true rfl same
  · exact iff_of_false (by decide) more.ne'

theorem sign_swap (one two : β) : sign two one = - sign one two := by
  rcases sign_cases one two with ⟨less, is⟩ | ⟨same, is⟩ | ⟨more, is⟩ <;> rw [is, sign]
  · rw [if_neg less.asymm, if_neg less.ne']
    rfl
  · rw [if_neg (not_lt.mpr same.le), if_pos same.symm]
    rfl
  · rw [if_pos more]

theorem sign_nonpos_iff : sign one two ≤ 0 ↔ one ≤ two := by
  rcases sign_cases one two with ⟨less, is⟩ | ⟨same, is⟩ | ⟨more, is⟩ <;> rw [is]
  · exact iff_of_true (by decide) less.le
  · exact iff_of_true le_rfl same.le
  · exact iff_of_false (by decide) (not_le.mpr more)

theorem sign_trans (first : sign one two ≤ 0) (second : sign two three ≤ 0) :
    sign one three ≤ 0 := by
  rw [sign_nonpos_iff] at first second ⊢
  exact le_trans first second

theorem mul_add_lt {base bound high low : ℕ} (below : high < bound) (small : low < base) :
    high * base + low < bound * base := by
  have most := Nat.mul_le_mul_right base below
  rw [Nat.succ_mul] at most
  omega

/-- Numbers are compared by their high parts first. -/
theorem sign_mul_add {base high high' low low' : ℕ} (small : low < base) (small' : low' < base) :
    sign (high * base + low) (high' * base + low') =
      if sign high high' ≠ 0 then sign high high' else sign low low' := by
  rcases sign_cases high high' with ⟨less, is⟩ | ⟨rfl, is⟩ | ⟨more, is⟩ <;> rw [is]
  · have far := Nat.mul_le_mul_right base less
    rw [Nat.succ_mul] at far
    rw [if_pos (by decide), sign, if_pos (by omega)]
  · rw [if_neg (by decide), sign, sign]
    simp only [Nat.add_lt_add_iff_left, Nat.add_left_cancel_iff]
  · have far := Nat.mul_le_mul_right base more
    rw [Nat.succ_mul] at far
    rw [if_pos (by decide), sign, if_neg (by omega), if_neg (by omega)]

end Comparison
