import Cjdns.Library.Word

/-!
# Bits

The two bit operations of `util/Bits.h` that the switch uses: the logarithm
that finds the terminating bit of a label, and the reversal that turns a
forward path into a return path.
-/

namespace Cjdns.Bits

/-- The loop of `Bits_log2x64`; a 64-bit number is shifted away after 64 rounds. -/
def log2x64Loop : ℕ → BitVec 64 → ℕ → ℕ
  | 0, _, out => out
  | rounds + 1, number, out =>
      let shifted := number >>> 1
      if shifted = 0 then out else log2x64Loop rounds shifted (out + 1)

/-- `Bits_log2x64` -/
def log2x64 (number : BitVec 64) : ℕ :=
  log2x64Loop 64 number 0

/-- The macro `Bits_rotateAndMask` -/
def rotateAndMask (mask : BitVec 64) (rotateBits : ℕ) (toReverse : BitVec 64) : BitVec 64 :=
  ((toReverse >>> rotateBits) &&& mask) ||| ((toReverse &&& mask) <<< rotateBits)

/-- `Bits_bitReverse64` -/
def bitReverse64 (toReverse : BitVec 64) : BitVec 64 :=
  let toReverse := rotateAndMask 0x5555555555555555 1 toReverse
  let toReverse := rotateAndMask 0x3333333333333333 2 toReverse
  let toReverse := rotateAndMask 0x0F0F0F0F0F0F0F0F 4 toReverse
  let toReverse := rotateAndMask 0x00FF00FF00FF00FF 8 toReverse
  let toReverse := rotateAndMask 0x0000FFFF0000FFFF 16 toReverse
  rotateAndMask 0x00000000FFFFFFFF 32 toReverse

theorem log2x64Loop_eq (rounds : ℕ) (number : BitVec 64) (out : ℕ)
    (enough : number.toNat < 2 ^ rounds) :
    log2x64Loop rounds number out = out + Nat.log2 number.toNat := by
  induction rounds generalizing number out with
  | zero =>
      have : number.toNat = 0 := by simpa using enough
      simp [log2x64Loop, this]
  | succ rounds ih =>
      have halved : (number >>> 1).toNat = number.toNat / 2 := by
        simp [Nat.shiftRight_eq_div_pow]
      simp only [log2x64Loop]
      rw [Nat.log2_def number.toNat]
      by_cases done : number >>> 1 = 0
      · have small : number.toNat / 2 = 0 := by rw [← halved, done]; rfl
        have : ¬ 2 ≤ number.toNat := by omega
        simp [done, this]
      · have large : 2 ≤ number.toNat := by
          by_contra small
          apply done
          apply BitVec.eq_of_toNat_eq
          rw [halved]
          simp
          omega
        rw [if_neg done, if_pos large, ih _ _ (by rw [halved]; omega), halved]
        omega

/-- `log2x64` is the binary logarithm, with `log2x64 0 = 0`. -/
theorem log2x64_eq (number : BitVec 64) : log2x64 number = Nat.log2 number.toNat := by
  rw [log2x64, log2x64Loop_eq 64 number 0 number.isLt, zero_add]

theorem log2x64_lt {number : BitVec 64} {width : ℕ} (nonzero : number ≠ 0) :
    log2x64 number < width ↔ number.toNat < 2 ^ width := by
  rw [log2x64_eq]
  exact Nat.log2_lt (by simpa [← BitVec.toNat_inj] using nonzero)

theorem toNat_lt_two_pow_log2x64 (number : BitVec 64) :
    number.toNat < 2 ^ (log2x64 number + 1) := by
  rw [log2x64_eq]
  exact Nat.lt_log2_self

theorem two_pow_log2x64_le {number : BitVec 64} (nonzero : number ≠ 0) :
    2 ^ log2x64 number ≤ number.toNat := by
  rw [log2x64_eq]
  exact Nat.log2_self_le (by simpa [← BitVec.toNat_inj] using nonzero)

theorem log2x64_le (number : BitVec 64) : log2x64 number ≤ 63 := by
  by_cases zero : number = 0
  · subst zero
    decide
  · have below : log2x64 number < 64 := (log2x64_lt zero).mpr number.isLt
    omega

/-- Every round of the reversal exchanges the bits whose positions differ in one binary digit. -/
theorem getLsbD_rotateAndMask (toReverse : BitVec 64) {index : ℕ} (inside : index < 64) :
    (rotateAndMask 0x5555555555555555 1 toReverse).getLsbD index =
        toReverse.getLsbD (index ^^^ 1) ∧
      (rotateAndMask 0x3333333333333333 2 toReverse).getLsbD index =
        toReverse.getLsbD (index ^^^ 2) ∧
      (rotateAndMask 0x0F0F0F0F0F0F0F0F 4 toReverse).getLsbD index =
        toReverse.getLsbD (index ^^^ 4) ∧
      (rotateAndMask 0x00FF00FF00FF00FF 8 toReverse).getLsbD index =
        toReverse.getLsbD (index ^^^ 8) ∧
      (rotateAndMask 0x0000FFFF0000FFFF 16 toReverse).getLsbD index =
        toReverse.getLsbD (index ^^^ 16) ∧
      (rotateAndMask 0x00000000FFFFFFFF 32 toReverse).getLsbD index =
        toReverse.getLsbD (index ^^^ 32) := by
  unfold rotateAndMask
  interval_cases index <;> simp

/-- `bitReverse64` is the reversal of a word: its six rounds flip all six binary digits. -/
theorem bitReverse64_eq_reverse (toReverse : BitVec 64) :
    bitReverse64 toReverse = toReverse.reverse := by
  apply BitVec.eq_of_getLsbD_eq
  intro index inside
  have flip {position : ℕ} (small : position < 64) (mask : ℕ) (maskSmall : mask < 64) :
      position ^^^ mask < 64 := Nat.xor_lt_two_pow (n := 6) small maskSmall
  have inside32 := flip inside 32 (by omega)
  have inside16 := flip inside32 16 (by omega)
  have inside8 := flip inside16 8 (by omega)
  have inside4 := flip inside8 4 (by omega)
  have inside2 := flip inside4 2 (by omega)
  simp only [bitReverse64]
  rw [(getLsbD_rotateAndMask _ inside).2.2.2.2.2, (getLsbD_rotateAndMask _ inside32).2.2.2.2.1,
    (getLsbD_rotateAndMask _ inside16).2.2.2.1, (getLsbD_rotateAndMask _ inside8).2.2.1,
    (getLsbD_rotateAndMask _ inside4).2.1, (getLsbD_rotateAndMask _ inside2).1]
  rw [BitVec.getLsbD_reverse, BitVec.getMsbD_eq_getLsbD]
  have digits : index ^^^ 32 ^^^ 16 ^^^ 8 ^^^ 4 ^^^ 2 ^^^ 1 = 64 - 1 - index := by
    interval_cases index <;> rfl
  rw [digits]
  simp [inside]

/-- Reversing twice gives the word back. -/
@[simp]
theorem bitReverse64_bitReverse64 (word : BitVec 64) :
    bitReverse64 (bitReverse64 word) = word := by
  simp [bitReverse64_eq_reverse, BitVec.reverse_reverse_eq]

end Cjdns.Bits
