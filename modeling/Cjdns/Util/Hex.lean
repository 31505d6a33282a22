import Mathlib.Tactic

/-!
# Hexadecimal text

`util/Hex.c`: bytes as pairs of digits, the high one first. Digits are written in small
letters, and capital letters are read as well.
-/

namespace Cjdns.Hex

/-- The table `hexEntities` -/
def hexEntity (nibble : BitVec 4) : BitVec 8 :=
  if nibble < 10 then 0x30 + nibble.setWidth 8 else 0x57 + nibble.setWidth 8

/-- The table `numForAscii` -/
def numForAscii (character : BitVec 8) : ℕ :=
  if 0x30 ≤ character ∧ character ≤ 0x39 then character.toNat - 0x30
  else if 0x41 ≤ character ∧ character ≤ 0x46 then character.toNat - 0x37
  else if 0x61 ≤ character ∧ character ≤ 0x66 then character.toNat - 0x57
  else 99

/-- `Hex_encode` -/
def encode (bytes : List (BitVec 8)) : List (BitVec 8) :=
  bytes.flatMap fun byte => [hexEntity (byte.extractLsb' 4 4), hexEntity (byte.extractLsb' 0 4)]

/-- `Hex_decodeByte` -/
def decodeByte (highNibble lowNibble : BitVec 8) : Option (BitVec 8) :=
  if highNibble ≥ 0x80 ∨ lowNibble ≥ 0x80 then none
  else
    let high := numForAscii highNibble
    let low := numForAscii lowNibble
    if high + low < 31 then some (BitVec.ofNat 8 (high * 16 ||| low)) else none

/-- `Hex_decode`, for texts of even length -/
def decode : List (BitVec 8) → Option (List (BitVec 8))
  | high :: low :: rest =>
      (decodeByte high low).bind fun byte => (decode rest).map fun bytes => byte :: bytes
  | _ => some []

theorem decodeByte_hexEntity (byte : BitVec 8) :
    decodeByte (hexEntity (byte.extractLsb' 4 4)) (hexEntity (byte.extractLsb' 0 4)) =
      some byte := by
  revert byte
  decide +kernel

theorem encode_cons (byte : BitVec 8) (bytes : List (BitVec 8)) :
    encode (byte :: bytes) = hexEntity (byte.extractLsb' 4 4) ::
      hexEntity (byte.extractLsb' 0 4) :: encode bytes :=
  rfl

theorem length_encode (bytes : List (BitVec 8)) : (encode bytes).length = 2 * bytes.length := by
  induction bytes with
  | nil => rfl
  | cons byte bytes ih =>
      rw [encode_cons, List.length_cons, List.length_cons, ih, List.length_cons]
      omega

/-- What is encoded can be decoded. -/
@[simp]
theorem decode_encode (bytes : List (BitVec 8)) : decode (encode bytes) = some bytes := by
  induction bytes with
  | nil => rfl
  | cons byte bytes ih =>
      rw [encode_cons, decode, decodeByte_hexEntity, Option.bind_some, ih, Option.map_some]

theorem encode_injective : Function.Injective encode := by
  intro first second same
  simpa using congrArg decode same

end Cjdns.Hex
