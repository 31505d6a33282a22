import Mathlib.Tactic

/-!
# The replay protector

The nonces seen lately, as a window of bits above a base offset.
-/

namespace Cjdns

/-- `struct ReplayProtector`. Only the bits up to the twentieth are ever set. -/
structure ReplayProtector where
  baseOffset : ℕ := 0
  bitfield : ℕ := 0
deriving DecidableEq

namespace ReplayProtector

/-- `ReplayProtector_checkNonce` -/
def checkNonce (nonce : ℕ) (context : ReplayProtector) : Bool × ReplayProtector :=
  if nonce < context.baseOffset then (false, context)
  else
    let offset := nonce - context.baseOffset
    if 20 < offset then
      (true, {
        baseOffset := context.baseOffset + (offset - 20)
        bitfield := (if 51 < offset then 0 else context.bitfield >>> (offset - 20)) ||| 1 <<< 20 })
    else if context.bitfield.testBit offset then (false, context)
    else (true, { context with bitfield := context.bitfield ||| 1 <<< offset })

/-- A nonce that is turned down is not filed. -/
theorem checkNonce_refused {nonce : ℕ} {context : ReplayProtector}
    (refused : (checkNonce nonce context).1 = false) : (checkNonce nonce context).2 = context := by
  revert refused
  simp only [checkNonce]
  split_ifs <;> simp

/-! ## The window -/

variable {context : ReplayProtector} {nonce other : ℕ}

/-- The nonce is below the window, or its bit is set. -/
def Blocks (context : ReplayProtector) (nonce : ℕ) : Prop :=
  nonce < context.baseOffset ∨
    nonce - context.baseOffset ≤ 20 ∧ context.bitfield.testBit (nonce - context.baseOffset) = true

/-- No bit behind the twentieth is set. -/
def IsWindow (context : ReplayProtector) : Prop :=
  context.bitfield < 2 ^ 21

theorem isWindow_new : IsWindow {} := by
  norm_num [IsWindow]

/-- A new replay protector blocks nothing. -/
theorem not_blocks_new : ¬Blocks {} nonce := by
  simp [Blocks]

theorem checkNonce_iff : (checkNonce nonce context).1 = true ↔ ¬context.Blocks nonce := by
  rw [checkNonce, Blocks]
  split
  · rename_i below
    simp [below]
  dsimp only
  split
  · simp
    omega
  split
  · rename_i filed
    simp [filed]
    omega
  · rename_i above inside new
    simp [new, above]

theorem IsWindow.testBit_eq_false (window : context.IsWindow) {bit : ℕ} (high : 21 ≤ bit) :
    context.bitfield.testBit bit = false :=
  Nat.testBit_lt_two_pow (lt_of_lt_of_le window (Nat.pow_le_pow_right (by norm_num) high))

/-- The bits that are left when the window moves up -/
def shifted (offset : ℕ) (context : ReplayProtector) : ℕ :=
  if 51 < offset then 0 else context.bitfield >>> (offset - 20)

theorem testBit_shifted (window : context.IsWindow) {offset : ℕ} (bit : ℕ) :
    (context.shifted offset).testBit bit = context.bitfield.testBit (offset - 20 + bit) := by
  rw [shifted]
  split
  · rw [Nat.zero_testBit, window.testBit_eq_false (by omega)]
  · rw [Nat.testBit_shiftRight]

/-- What is filed when a nonce is let pass -/
theorem checkNonce_of_passes (passes : ¬context.Blocks nonce) :
    context.baseOffset ≤ nonce ∧ (checkNonce nonce context).2 =
      if nonce - context.baseOffset ≤ 20 then
        { context with bitfield := context.bitfield ||| 1 <<< (nonce - context.baseOffset) }
      else {
        baseOffset := nonce - 20
        bitfield := context.shifted (nonce - context.baseOffset) ||| 1 <<< 20 } := by
  rw [Blocks, not_or, not_lt, not_and] at passes
  rcases passes with ⟨above, new⟩
  refine ⟨above, ?_⟩
  rw [checkNonce, if_neg (not_lt.mpr above)]
  dsimp only
  split
  · rename_i far
    have base : context.baseOffset + (nonce - context.baseOffset - 20) = nonce - 20 := by omega
    rw [if_neg (not_le.mpr far), base, shifted]
  · rename_i near
    rw [if_neg (new (not_lt.mp near)), if_pos (not_lt.mp near)]

theorem checkNonce_isWindow (window : context.IsWindow) :
    (checkNonce nonce context).2.IsWindow := by
  by_cases passes : (checkNonce nonce context).1 = true
  · have small : ∀ {bit : ℕ}, bit ≤ 20 → 1 <<< bit < 2 ^ 21 := by
      intro bit inside
      rw [Nat.one_shiftLeft]
      exact Nat.pow_lt_pow_right (by norm_num) (by omega)
    rw [(checkNonce_of_passes (checkNonce_iff.mp passes)).2]
    split
    · rename_i near
      exact Nat.or_lt_two_pow window (small near)
    · refine Nat.or_lt_two_pow ?_ (small le_rfl)
      rw [shifted]
      split
      · norm_num
      · exact lt_of_le_of_lt (Nat.shiftRight_le _ _) window
  · rw [checkNonce_refused (Bool.not_eq_true _ ▸ passes)]
    exact window

/-- A nonce that is let pass is filed, and what is more than twenty below it; nothing else is. -/
theorem blocks_checkNonce_iff (window : context.IsWindow) (passes : ¬context.Blocks nonce) :
    (checkNonce nonce context).2.Blocks other ↔
      other = nonce ∨ other + 20 < nonce ∨ context.Blocks other := by
  rcases checkNonce_of_passes passes with ⟨above, after⟩
  rw [after]
  split
  · simp only [Blocks, Nat.testBit_or, Nat.one_shiftLeft, Nat.testBit_two_pow, Bool.or_eq_true,
      decide_eq_true_eq]
    by_cases filed : context.bitfield.testBit (other - context.baseOffset) = true
    · simp only [filed, true_or, and_true]
      omega
    · simp only [filed, Bool.false_eq_true, false_or, and_false, or_false]
      omega
  · simp only [Blocks, Nat.testBit_or, Nat.one_shiftLeft, Nat.testBit_two_pow, Bool.or_eq_true,
      decide_eq_true_eq, testBit_shifted window]
    by_cases low : other < nonce - 20
    · simp only [low, true_or, true_iff]
      omega
    · have bit : nonce - context.baseOffset - 20 + (other - (nonce - 20)) =
          other - context.baseOffset := by omega
      rw [bit]
      by_cases filed : context.bitfield.testBit (other - context.baseOffset) = true
      · have inside : other - context.baseOffset ≤ 20 := by
          by_contra outside
          rw [window.testBit_eq_false (by omega)] at filed
          cases filed
        simp only [filed, true_or, and_true]
        omega
      · simp only [filed, Bool.false_eq_true, false_or, and_false, or_false]
        omega

end ReplayProtector

end Cjdns
