import Cjdns.Util.Bits

/-!
# Byte order

The host is little endian, so that the conversions between host order and big
endian order of `util/Endian.h` swap the bytes of a word.
-/

namespace Cjdns.Endian

/-- The macro `Endian_rotateAndMask` -/
def rotateAndMask {width : ℕ} (mask : BitVec width) (rotateBits : ℕ) (input : BitVec width) :
    BitVec width :=
  ((input >>> rotateBits) &&& mask) ||| ((input &&& mask) <<< rotateBits)

/-- `Endian_byteSwap16_manual` -/
def byteSwap16 (input : BitVec 16) : BitVec 16 :=
  (input <<< 8) ||| (input >>> 8)

/-- `Endian_byteSwap32_manual` -/
def byteSwap32 (input : BitVec 32) : BitVec 32 :=
  let input := rotateAndMask 0x00FF00FF 8 input
  rotateAndMask 0x0000FFFF 16 input

/-- `Endian_byteSwap64_manual` -/
def byteSwap64 (input : BitVec 64) : BitVec 64 :=
  let input := rotateAndMask 0x00FF00FF00FF00FF 8 input
  let input := rotateAndMask 0x0000FFFF0000FFFF 16 input
  rotateAndMask 0x00000000FFFFFFFF 32 input

/-- `Endian_hostToBigEndian16` -/
abbrev hostToBigEndian16 := byteSwap16

/-- `Endian_hostToBigEndian32` -/
abbrev hostToBigEndian32 := byteSwap32

/-- `Endian_hostToBigEndian64` -/
abbrev hostToBigEndian64 := byteSwap64

/-- `Endian_bigEndianToHost16` -/
abbrev bigEndianToHost16 := byteSwap16

/-- `Endian_bigEndianToHost32` -/
abbrev bigEndianToHost32 := byteSwap32

/-- `Endian_bigEndianToHost64` -/
abbrev bigEndianToHost64 := byteSwap64

theorem getLsbD_byteSwap16 (input : BitVec 16) {index : ℕ} (inside : index < 16) :
    (byteSwap16 input).getLsbD index = input.getLsbD (index ^^^ 8) := by
  unfold byteSwap16
  interval_cases index <;> simp

theorem getLsbD_byteSwap32 (input : BitVec 32) {index : ℕ} (inside : index < 32) :
    (byteSwap32 input).getLsbD index = input.getLsbD (index ^^^ 24) := by
  unfold byteSwap32 rotateAndMask
  interval_cases index <;> simp

/-- The byte swap flips the three binary digits of a bit's position that number its byte. -/
theorem getLsbD_byteSwap64 (input : BitVec 64) {index : ℕ} (inside : index < 64) :
    (byteSwap64 input).getLsbD index = input.getLsbD (index ^^^ 56) := by
  have flip {position : ℕ} (small : position < 64) (mask : ℕ) (maskSmall : mask < 64) :
      position ^^^ mask < 64 := Nat.xor_lt_two_pow (n := 6) small maskSmall
  have inside32 := flip inside 32 (by omega)
  have inside16 := flip inside32 16 (by omega)
  have digits : index ^^^ 32 ^^^ 16 ^^^ 8 = index ^^^ 56 := by
    interval_cases index <;> rfl
  change (Bits.rotateAndMask 0x00000000FFFFFFFF 32 (Bits.rotateAndMask 0x0000FFFF0000FFFF 16
    (Bits.rotateAndMask 0x00FF00FF00FF00FF 8 input))).getLsbD index = _
  rw [(Bits.getLsbD_rotateAndMask _ inside).2.2.2.2.2,
    (Bits.getLsbD_rotateAndMask _ inside32).2.2.2.2.1,
    (Bits.getLsbD_rotateAndMask _ inside16).2.2.2.1, digits]

@[simp]
theorem byteSwap16_byteSwap16 (input : BitVec 16) : byteSwap16 (byteSwap16 input) = input := by
  apply BitVec.eq_of_getLsbD_eq
  intro index inside
  rw [getLsbD_byteSwap16 _ inside, getLsbD_byteSwap16 _ (Nat.xor_lt_two_pow (n := 4) inside
    (by omega)), Nat.xor_assoc, Nat.xor_self, Nat.xor_zero]

@[simp]
theorem byteSwap32_byteSwap32 (input : BitVec 32) : byteSwap32 (byteSwap32 input) = input := by
  apply BitVec.eq_of_getLsbD_eq
  intro index inside
  rw [getLsbD_byteSwap32 _ inside, getLsbD_byteSwap32 _ (Nat.xor_lt_two_pow (n := 5) inside
    (by omega)), Nat.xor_assoc, Nat.xor_self, Nat.xor_zero]

@[simp]
theorem byteSwap64_byteSwap64 (input : BitVec 64) : byteSwap64 (byteSwap64 input) = input := by
  apply BitVec.eq_of_getLsbD_eq
  intro index inside
  rw [getLsbD_byteSwap64 _ inside, getLsbD_byteSwap64 _ (Nat.xor_lt_two_pow (n := 6) inside
    (by omega)), Nat.xor_assoc, Nat.xor_self, Nat.xor_zero]

/-- Reversing the bits of a big endian word reverses the bits of its value. -/
theorem bitReverse64_byteSwap64 (input : BitVec 64) :
    Bits.bitReverse64 (byteSwap64 input) = byteSwap64 (Bits.bitReverse64 input) := by
  rw [Bits.bitReverse64_eq_reverse, Bits.bitReverse64_eq_reverse]
  apply BitVec.eq_of_getLsbD_eq
  intro index inside
  have flipped : index ^^^ 56 < 64 := Nat.xor_lt_two_pow (n := 6) inside (by omega)
  have digits : (64 - 1 - index) ^^^ 56 = 64 - 1 - (index ^^^ 56) := by
    interval_cases index <;> rfl
  rw [getLsbD_byteSwap64 _ inside, BitVec.getLsbD_reverse, BitVec.getMsbD_eq_getLsbD,
    BitVec.getLsbD_reverse, BitVec.getMsbD_eq_getLsbD, getLsbD_byteSwap64 _ (by omega), digits]
  simp [inside, flipped]

end Cjdns.Endian
