import Cjdns.Library.Word

/-!
# The dynamic number compression scheme

The default build (`CJDNS_MAX_PEERS` 256) uses `NumberCompress_dyn`: an
interface number is written in 4, 7 or 10 bits at the low end of a label, and
the two lowest bits tell the width.

    scheme   data             suffix   range            bits used
    route 0001                         1                4
      0   000-111                 1    0-7 (0, 1 swapped)   4
      1   00000-11111            10    0-32 (1 skipped)     7
      2   00000000-11111111      00    0-256 (1 skipped)   10

The results at the end say what the switch relies on: decoding inspects only
the bits it announces, and encoding writes back exactly the bits that were
decoded.
-/

namespace Cjdns.NumberCompress

/-- `NumberCompress_dyn_INTERFACES` -/
abbrev INTERFACES : ℕ := 257

instance : NeZero INTERFACES := ⟨by decide⟩

/-- `NumberCompress_dyn_bitsUsedForLabel` -/
def bitsUsedForLabel (label : BitVec 64) : ℕ :=
  if 0 ≠ label &&& 0x1 then 4
  else if 0 ≠ label &&& 0x2 then 7
  else 10

/-- `NumberCompress_dyn_bitsUsedForNumber` -/
def bitsUsedForNumber (number : ℕ) : ℕ :=
  if number < 8 then 4
  else if number < 33 then 7
  else 10

/-- `NumberCompress_dyn_getCompressed` -/
def getCompressed (number : ℕ) (bitsUsed : ℕ) : BitVec 64 :=
  if 1 = number then 1
  else
    match bitsUsed with
    | 4 => if 0 = number then 3 else BitVec.ofNat 64 ((number <<< 1) ||| 1)
    | 7 => if 0 = number then 2 else BitVec.ofNat 64 (((number - 1) <<< 2) ||| 2)
    | 10 => if 0 = number then 0 else BitVec.ofNat 64 ((number - 1) <<< 2)
    | _ => 0

/-- `NumberCompress_dyn_getDecompressed` -/
def getDecompressed (label : BitVec 64) (bitsUsed : ℕ) : ℕ :=
  match bitsUsed with
  | 4 =>
      let number := ((label >>> 1) &&& 0x7).toNat
      if 0 = number then 1 else if 1 = number then 0 else number
  | 7 =>
      let number := ((label >>> 2) &&& 0x1f).toNat
      if 0 ≠ number then number + 1 else number
  | 10 =>
      let number := ((label >>> 2) &&& 0xff).toNat
      if 0 ≠ number then number + 1 else number
  | _ => 0

/-- The three widths of the scheme. -/
def IsWidth (bits : ℕ) : Prop :=
  bits = 4 ∨ bits = 7 ∨ bits = 10

theorem isWidth_bitsUsedForNumber (number : ℕ) : IsWidth (bitsUsedForNumber number) := by
  unfold bitsUsedForNumber IsWidth
  split_ifs <;> simp

theorem isWidth_bitsUsedForLabel (label : BitVec 64) : IsWidth (bitsUsedForLabel label) := by
  unfold bitsUsedForLabel IsWidth
  split_ifs <;> simp

theorem bitsUsedForLabel_eq (label : BitVec 64) :
    bitsUsedForLabel label =
      if label.toNat % 2 = 1 then 4 else if label.toNat % 4 / 2 = 1 then 7 else 10 := by
  have lowest : (label &&& 0x1).toNat = label.toNat % 2 := Word.toNat_and_mask 1 (by omega)
  have second : (label &&& 0x2).toNat = label.toNat % 4 / 2 * 2 := by
    rw [BitVec.toNat_and]
    apply Nat.eq_of_testBit_eq
    intro index
    rw [show (0x2 : BitVec 64).toNat = 2 ^ 1 from rfl, Nat.testBit_and, Nat.testBit_two_pow,
      show label.toNat % 4 / 2 * 2 = (label.toNat % 2 ^ 2 / 2 ^ 1) * 2 ^ 1 by norm_num,
      Nat.testBit_mul_two_pow, Nat.testBit_div_two_pow, Nat.testBit_mod_two_pow]
    by_cases first : 1 = index
    · subst first
      simp
    · by_cases zero : index = 0
      · simp [zero]
      · have : ¬ index - 1 + 1 < 2 := by omega
        simp [first, this]
  simp only [bitsUsedForLabel, ne_eq, ← BitVec.toNat_inj, lowest, second]
  split_ifs <;> simp_all <;> omega

theorem getDecompressed_four (label : BitVec 64) :
    getDecompressed label 4 =
      if label.toNat / 2 % 8 = 0 then 1
      else if label.toNat / 2 % 8 = 1 then 0 else label.toNat / 2 % 8 := by
  have data : ((label >>> 1) &&& 0x7).toNat = label.toNat / 2 % 8 := by
    rw [show (0x7 : BitVec 64) = BitVec.ofNat 64 (2 ^ 3 - 1) from rfl,
      Word.toNat_and_mask 3 (by omega)]
    simp [Nat.shiftRight_eq_div_pow]
  simp only [getDecompressed, data, eq_comm]

theorem getDecompressed_seven (label : BitVec 64) :
    getDecompressed label 7 =
      if label.toNat / 4 % 32 = 0 then 0 else label.toNat / 4 % 32 + 1 := by
  have data : ((label >>> 2) &&& 0x1f).toNat = label.toNat / 4 % 32 := by
    rw [show (0x1f : BitVec 64) = BitVec.ofNat 64 (2 ^ 5 - 1) from rfl,
      Word.toNat_and_mask 5 (by omega)]
    simp [Nat.shiftRight_eq_div_pow]
  simp only [getDecompressed, data]
  split_ifs <;> omega

theorem getDecompressed_ten (label : BitVec 64) :
    getDecompressed label 10 =
      if label.toNat / 4 % 256 = 0 then 0 else label.toNat / 4 % 256 + 1 := by
  have data : ((label >>> 2) &&& 0xff).toNat = label.toNat / 4 % 256 := by
    rw [show (0xff : BitVec 64) = BitVec.ofNat 64 (2 ^ 8 - 1) from rfl,
      Word.toNat_and_mask 8 (by omega)]
    simp [Nat.shiftRight_eq_div_pow]
  simp only [getDecompressed, data]
  split_ifs <;> omega

/-- Decoding inspects no bit above the width it announces. -/
theorem decode_congr {left right : BitVec 64}
    (agree : Word.low (bitsUsedForLabel left) left = Word.low (bitsUsedForLabel left) right) :
    bitsUsedForLabel right = bitsUsedForLabel left ∧
      getDecompressed right (bitsUsedForLabel left) =
        getDecompressed left (bitsUsedForLabel left) := by
  rw [Word.low_eq_low_iff] at agree
  rcases isWidth_bitsUsedForLabel left with width | width | width <;>
    rw [width] at agree ⊢ <;> rw [bitsUsedForLabel_eq] at width ⊢
  · rw [getDecompressed_four, getDecompressed_four]
    have data : right.toNat / 2 % 8 = left.toNat / 2 % 8 := by omega
    have suffix : right.toNat % 2 = 1 := by split_ifs at width <;> omega
    simp [data, suffix]
  · rw [getDecompressed_seven, getDecompressed_seven]
    have data : right.toNat / 4 % 32 = left.toNat / 4 % 32 := by omega
    have suffix : ¬ right.toNat % 2 = 1 ∧ right.toNat % 4 / 2 = 1 := by
      split_ifs at width <;> omega
    simp [data, suffix]
  · rw [getDecompressed_ten, getDecompressed_ten]
    have data : right.toNat / 4 % 256 = left.toNat / 4 % 256 := by omega
    have suffix : ¬ right.toNat % 2 = 1 ∧ ¬ right.toNat % 4 / 2 = 1 := by
      split_ifs at width <;> omega
    simp [data, suffix]

/-- The decoded number is an interface number. -/
theorem getDecompressed_lt (label : BitVec 64) (bits : ℕ) :
    getDecompressed label bits < INTERFACES := by
  change getDecompressed label bits < 257
  by_cases width : IsWidth bits
  · rcases width with rfl | rfl | rfl
    · rw [getDecompressed_four]
      split_ifs <;> omega
    · rw [getDecompressed_seven]
      split_ifs <;> omega
    · rw [getDecompressed_ten]
      split_ifs <;> omega
  · simp only [IsWidth, not_or] at width
    unfold getDecompressed
    split <;> simp_all

/-- A number decoded from some width can be written in that width. -/
theorem bitsUsedForNumber_getDecompressed_le (label : BitVec 64) {bits : ℕ} (width : IsWidth bits) :
    bitsUsedForNumber (getDecompressed label bits) ≤ bits := by
  rcases width with rfl | rfl | rfl
  · rw [getDecompressed_four, bitsUsedForNumber]
    split_ifs <;> omega
  · rw [getDecompressed_seven, bitsUsedForNumber]
    split_ifs <;> omega
  · unfold bitsUsedForNumber
    split_ifs <;> omega

theorem lt_eight_of_fits {number : ℕ} (fits : bitsUsedForNumber number ≤ 4) : number < 8 := by
  unfold bitsUsedForNumber at fits
  split_ifs at fits <;> omega

theorem lt_thirtyThree_of_fits {number : ℕ} (fits : bitsUsedForNumber number ≤ 7) :
    number < 33 := by
  unfold bitsUsedForNumber at fits
  split_ifs at fits <;> omega

theorem getCompressed_four {number : ℕ} (small : number < 8) :
    (getCompressed number 4).toNat =
      if number = 1 then 1 else if number = 0 then 3 else 2 * number + 1 := by
  interval_cases number <;> rfl

theorem getCompressed_seven {number : ℕ} (small : number < 33) :
    (getCompressed number 7).toNat =
      if number = 1 then 1 else if number = 0 then 2 else 4 * (number - 1) + 2 := by
  interval_cases number <;> rfl

theorem getCompressed_ten {number : ℕ} (small : number < INTERFACES) :
    (getCompressed number 10).toNat =
      if number = 1 then 1 else if number = 0 then 0 else 4 * (number - 1) := by
  change number < 257 at small
  by_cases one : number = 1
  · simp [getCompressed, one]
  · by_cases zero : number = 0
    · simp [getCompressed, zero]
    · have bound : (number - 1) * 2 ^ 2 < 2 ^ 64 := by omega
      simp [getCompressed, Ne.symm one, Ne.symm zero, one, zero, Nat.shiftLeft_eq]
      omega

/-- The range of `getCompressed`: the code of a number fits the width it was asked for. -/
theorem toNat_getCompressed_lt {number bits : ℕ} (width : IsWidth bits)
    (inRange : number < INTERFACES) (fits : bitsUsedForNumber number ≤ bits) :
    (getCompressed number bits).toNat < 2 ^ bits := by
  rcases width with rfl | rfl | rfl
  · have small := lt_eight_of_fits fits
    rw [getCompressed_four small]
    split_ifs <;> omega
  · have small := lt_thirtyThree_of_fits fits
    rw [getCompressed_seven small]
    split_ifs <;> omega
  · rw [getCompressed_ten inRange]
    change number < 257 at inRange
    split_ifs <;> omega

/-- The code of a number other than the router's announces its own width and decodes to it. -/
theorem decode_getCompressed {number bits : ℕ} (width : IsWidth bits)
    (inRange : number < INTERFACES) (fits : bitsUsedForNumber number ≤ bits) (peer : number ≠ 1) :
    bitsUsedForLabel (getCompressed number bits) = bits ∧
      getDecompressed (getCompressed number bits) bits = number := by
  rcases width with rfl | rfl | rfl
  · have small := lt_eight_of_fits fits
    rw [bitsUsedForLabel_eq, getDecompressed_four, getCompressed_four small]
    split_ifs <;> simp_all <;> omega
  · have small := lt_thirtyThree_of_fits fits
    rw [bitsUsedForLabel_eq, getDecompressed_seven, getCompressed_seven small]
    split_ifs <;> simp_all <;> omega
  · rw [bitsUsedForLabel_eq, getDecompressed_ten, getCompressed_ten inRange]
    change number < 257 at inRange
    split_ifs <;> simp_all <;> omega

/-- A label that starts with the code of a number decodes to that number. -/
theorem decode_of_low_eq {label : BitVec 64} {number bits : ℕ} (width : IsWidth bits)
    (inRange : number < INTERFACES) (fits : bitsUsedForNumber number ≤ bits) (peer : number ≠ 1)
    (starts : Word.low bits label = getCompressed number bits) :
    bitsUsedForLabel label = bits ∧ getDecompressed label bits = number := by
  obtain ⟨codeBits, codeNumber⟩ := decode_getCompressed width inRange fits peer
  have codeLow : Word.low bits (getCompressed number bits) = getCompressed number bits :=
    Word.low_eq_self (toNat_getCompressed_lt width inRange fits)
  have agree : Word.low (bitsUsedForLabel (getCompressed number bits)) (getCompressed number bits) =
      Word.low (bitsUsedForLabel (getCompressed number bits)) label := by
    rw [codeBits, codeLow, starts]
  have same := decode_congr agree
  rw [codeBits, codeNumber] at same
  exact same

/-- Encoding a decoded number in the width it was read from gives back the bits that were read. -/
theorem getCompressed_getDecompressed (label : BitVec 64) :
    getCompressed (getDecompressed label (bitsUsedForLabel label)) (bitsUsedForLabel label) =
      Word.low (bitsUsedForLabel label) label := by
  apply BitVec.eq_of_toNat_eq
  rw [Word.toNat_low]
  rcases isWidth_bitsUsedForLabel label with width | width | width <;>
    rw [width] <;> rw [bitsUsedForLabel_eq] at width
  · have suffix : label.toNat % 2 = 1 := by split_ifs at width <;> omega
    have decoded := getDecompressed_four label
    generalize getDecompressed label 4 = number at decoded ⊢
    have small : number < 8 := by split_ifs at decoded <;> omega
    rw [getCompressed_four small]
    split_ifs at decoded ⊢ <;> omega
  · have suffix : label.toNat % 4 = 2 := by split_ifs at width <;> omega
    have decoded := getDecompressed_seven label
    generalize getDecompressed label 7 = number at decoded ⊢
    have small : number < 33 := by split_ifs at decoded <;> omega
    rw [getCompressed_seven small]
    split_ifs at decoded ⊢ <;> omega
  · have suffix : label.toNat % 4 = 0 := by split_ifs at width <;> omega
    have decoded := getDecompressed_ten label
    generalize getDecompressed label 10 = number at decoded ⊢
    have small : number < 257 := by split_ifs at decoded <;> omega
    rw [getCompressed_ten small]
    split_ifs at decoded ⊢ <;> omega

/-- The router's code is one, whatever the width. -/
@[simp]
theorem getCompressed_one (bits : ℕ) : getCompressed 1 bits = 1 := rfl

/-- A label is for the router exactly when its four lowest bits are 0001. -/
theorem getDecompressed_eq_one_iff (label : BitVec 64) :
    getDecompressed label (bitsUsedForLabel label) = 1 ↔ label.toNat % 16 = 1 := by
  rcases isWidth_bitsUsedForLabel label with width | width | width <;>
    rw [width] <;> rw [bitsUsedForLabel_eq] at width
  · have suffix : label.toNat % 2 = 1 := by split_ifs at width <;> omega
    have decoded := getDecompressed_four label
    generalize getDecompressed label 4 = number at decoded ⊢
    split_ifs at decoded <;> omega
  · have suffix : label.toNat % 4 = 2 := by split_ifs at width <;> omega
    have decoded := getDecompressed_seven label
    generalize getDecompressed label 7 = number at decoded ⊢
    split_ifs at decoded <;> omega
  · have suffix : label.toNat % 4 = 0 := by split_ifs at width <;> omega
    have decoded := getDecompressed_ten label
    generalize getDecompressed label 10 = number at decoded ⊢
    split_ifs at decoded <;> omega

/-- A label that starts with the router's code is read in four bits. -/
theorem bitsUsedForLabel_of_router {label : BitVec 64} (router : label.toNat % 16 = 1) :
    bitsUsedForLabel label = 4 := by
  rw [bitsUsedForLabel_eq, if_pos (by omega)]

end Cjdns.NumberCompress
