import Mathlib.Data.Nat.Bitwise
import Mathlib.Tactic

/-!
# Words as bit strings

General facts about fixed-width words: the low bits of a word, and how reversal
turns a shift to the right into a shift to the left. A variable-width code that
is read from the low end of a word and written, reversed, at its high end only
needs these facts, whatever the code is.
-/

namespace Word

variable {n : ℕ}

/-- The word made of the `width` low bits of `word`. -/
def low (width : ℕ) (word : BitVec n) : BitVec n :=
  BitVec.ofNat n (word.toNat % 2 ^ width)

@[simp]
theorem toNat_low (width : ℕ) (word : BitVec n) :
    (low width word).toNat = word.toNat % 2 ^ width := by
  have bound : word.toNat % 2 ^ width < 2 ^ n :=
    lt_of_le_of_lt (Nat.mod_le _ _) word.isLt
  simp [low, Nat.mod_eq_of_lt bound]

theorem getLsbD_low (width : ℕ) (word : BitVec n) (index : ℕ) :
    (low width word).getLsbD index = (decide (index < width) && word.getLsbD index) := by
  rw [← BitVec.testBit_toNat, toNat_low, Nat.testBit_mod_two_pow, BitVec.testBit_toNat]

theorem low_eq_low_iff {width : ℕ} {left right : BitVec n} :
    low width left = low width right ↔
      left.toNat % 2 ^ width = right.toNat % 2 ^ width := by
  rw [← BitVec.toNat_inj, toNat_low, toNat_low]

theorem low_eq_self {width : ℕ} {word : BitVec n} (small : word.toNat < 2 ^ width) :
    low width word = word := by
  apply BitVec.eq_of_toNat_eq
  rw [toNat_low, Nat.mod_eq_of_lt small]

/-- Masking with `2 ^ width - 1` keeps the `width` low bits. -/
theorem toNat_and_mask {word : BitVec n} (width : ℕ) (fits : width ≤ n) :
    (word &&& BitVec.ofNat n (2 ^ width - 1)).toNat = word.toNat % 2 ^ width := by
  have bound : 2 ^ width - 1 < 2 ^ n := by
    have := Nat.pow_le_pow_right (n := 2) (by omega) fits
    have := Nat.one_le_two_pow (n := width)
    omega
  rw [BitVec.toNat_and, BitVec.toNat_ofNat, Nat.mod_eq_of_lt bound,
    Nat.and_two_pow_sub_one_eq_mod]

/-- Clearing the low bits of a word. -/
theorem and_allOnes_shiftLeft (word : BitVec n) (width : ℕ) :
    word &&& (BitVec.allOnes n <<< width) = (word >>> width) <<< width := by
  apply BitVec.eq_of_getLsbD_eq
  intro index inside
  simp only [BitVec.getLsbD_and, BitVec.getLsbD_shiftLeft, BitVec.getLsbD_allOnes,
    BitVec.getLsbD_ushiftRight]
  by_cases below : index < width
  · simp [below]
  · have position : width + (index - width) = index := by omega
    simp [below, inside, position, (by omega : index - width < n)]

/-- A word shifted to the left, with a code in the bits that became free. -/
theorem toNat_shiftLeft_or {word code : BitVec n} {width : ℕ} (fits : width ≤ n)
    (small : code.toNat < 2 ^ width) :
    ((word <<< width) ||| code).toNat =
      (word.toNat % 2 ^ (n - width)) * 2 ^ width + code.toNat := by
  have split : 2 ^ n = 2 ^ (n - width) * 2 ^ width := by
    rw [← Nat.pow_add, Nat.sub_add_cancel fits]
  rw [BitVec.toNat_or, BitVec.toNat_shiftLeft, Nat.shiftLeft_eq, split, Nat.mul_mod_mul_right,
    Nat.mul_comm, ← Nat.two_pow_add_eq_or_of_lt small]

theorem reverse_or (left right : BitVec n) :
    (left ||| right).reverse = left.reverse ||| right.reverse := by
  apply BitVec.eq_of_getLsbD_eq
  intro index inside
  simp [BitVec.getLsbD_reverse, BitVec.getMsbD_or]

/-- Reversal turns a shift to the right into a shift to the left. -/
theorem reverse_ushiftRight (word : BitVec n) (amount : ℕ) :
    (word >>> amount).reverse = word.reverse <<< amount := by
  apply BitVec.eq_of_getLsbD_eq
  intro index inside
  simp only [BitVec.getLsbD_reverse, BitVec.getMsbD_eq_getLsbD, BitVec.getLsbD_ushiftRight,
    BitVec.getLsbD_shiftLeft]
  by_cases early : index < amount
  · simp [early, BitVec.getLsbD_of_ge word _ (by omega : n ≤ amount + (n - 1 - index))]
  · have position : amount + (n - 1 - index) = n - 1 - (index - amount) := by omega
    simp [early, inside, position, (by omega : index - amount < n)]

/--
The bits that a shift to the left pushes out of a word are the low bits of its
reversal, so putting these back, reversed, restores the word.
-/
theorem shiftLeft_ushiftRight_or_reverse_low (word : BitVec n) (amount : ℕ) :
    ((word <<< amount) >>> amount) ||| (low amount word.reverse).reverse = word := by
  apply BitVec.eq_of_getLsbD_eq
  intro index inside
  simp only [BitVec.getLsbD_or, BitVec.getLsbD_ushiftRight, BitVec.getLsbD_shiftLeft,
    BitVec.getLsbD_reverse, BitVec.getMsbD_eq_getLsbD, getLsbD_low]
  have mirrored : n - 1 - (n - 1 - index) = index := by omega
  by_cases kept : amount + index < n
  · have : ¬ n - 1 - index < amount := by omega
    simp [kept, this]
  · have : n - 1 - index < amount := by omega
    simp [kept, this, inside, mirrored, (by omega : n - 1 - index < n)]

/-- A word below `2 ^ amount` is shifted out entirely. -/
theorem ushiftRight_eq_zero_of_lt {word : BitVec n} {amount : ℕ}
    (small : word.toNat < 2 ^ amount) : word >>> amount = 0#n := by
  apply BitVec.eq_of_toNat_eq
  simp [Nat.shiftRight_eq_div_pow, Nat.div_eq_of_lt small]

/-- The reversal of a word below `2 ^ width` has no bit below the `width` high ones. -/
theorem toNat_reverse_mod_of_lt {word : BitVec n} {width kept : ℕ}
    (small : word.toNat < 2 ^ width) (apart : width + kept ≤ n) :
    word.reverse.toNat % 2 ^ kept = 0 := by
  apply Nat.eq_of_testBit_eq
  intro index
  simp only [Nat.testBit_mod_two_pow, BitVec.testBit_toNat, Nat.zero_testBit,
    BitVec.getLsbD_reverse, BitVec.getMsbD_eq_getLsbD]
  by_cases below : index < kept
  · have far : word.getLsbD (n - 1 - index) = false := by
      rw [← BitVec.testBit_toNat]
      apply Nat.testBit_lt_two_pow
      exact lt_of_lt_of_le small (Nat.pow_le_pow_right (by omega) (by omega))
    simp [far]
  · simp [below]

/-- What is left of a word after a shift does not reach up to a reversed code of that width. -/
theorem ushiftRight_and_reverse {code : BitVec n} {width : ℕ} (small : code.toNat < 2 ^ width)
    (word : BitVec n) : (word >>> width) &&& code.reverse = 0#n := by
  apply BitVec.eq_of_getLsbD_eq
  intro index inside
  rw [BitVec.getLsbD_and, BitVec.getLsbD_ushiftRight, BitVec.getLsbD_reverse,
    BitVec.getMsbD_eq_getLsbD, BitVec.getLsbD_zero]
  by_cases kept : width + index < n
  · have above : code.getLsbD (n - 1 - index) = false := by
      rw [← BitVec.testBit_toNat]
      apply Nat.testBit_lt_two_pow
      exact lt_of_lt_of_le small (Nat.pow_le_pow_right (by omega) (by omega))
    simp [above]
  · simp [BitVec.getLsbD_of_ge word _ (not_lt.mp kept)]

/-- Words that are put together are compared like the words of a dictionary. -/
theorem append_lt_append_iff {m : ℕ} {high high' : BitVec n} {low low' : BitVec m} :
    high ++ low < high' ++ low' ↔ high < high' ∨ high = high' ∧ low < low' := by
  have join (one : BitVec n) (two : BitVec m) :
      (one ++ two).toNat = one.toNat * 2 ^ m + two.toNat := by
    rw [BitVec.toNat_append, ← Nat.shiftLeft_add_eq_or_of_lt two.isLt, Nat.shiftLeft_eq]
  have small := low.isLt
  have small' := low'.isLt
  rw [BitVec.lt_def, BitVec.lt_def, BitVec.lt_def, ← BitVec.toNat_inj, join, join]
  rcases Nat.lt_trichotomy high.toNat high'.toNat with less | same | more
  · have far := Nat.mul_le_mul_right (2 ^ m) less
    rw [Nat.succ_mul] at far
    omega
  · rw [same]
    omega
  · have far := Nat.mul_le_mul_right (2 ^ m) more
    rw [Nat.succ_mul] at far
    omega

end Word
