import Cjdns.Library.Buffer
import Cjdns.Library.Regrouping

/-!
# Base 32

`util/Base32.h`: bytes as digits of five bits, the low ones first, with zeros above the last
byte. Letters that are easily mistaken are left out, and capital letters are read as well.

The words of both loops stay below 2^13, and the indices below the lengths, so that all of
them are natural numbers.
-/

namespace Cjdns.Base32

open Regrouping
open Buffer (lengthAsInt toLower)

/-- `Base32_BAD_INPUT` -/
abbrev BAD_INPUT : ℤ := -1

/-- `Base32_TOO_BIG` -/
abbrev TOO_BIG : ℤ := -2

/-- The table of `Base32_decode`; invalid characters are 99. -/
def table : List ℕ :=
  [99, 99, 99, 99, 99, 99, 99, 99, 99, 99, 99, 99, 99, 99, 99, 99,
   99, 99, 99, 99, 99, 99, 99, 99, 99, 99, 99, 99, 99, 99, 99, 99,
   99, 99, 99, 99, 99, 99, 99, 99, 99, 99, 99, 99, 99, 99, 99, 99,
    0,  1,  2,  3,  4,  5,  6,  7,  8,  9, 99, 99, 99, 99, 99, 99,
   99, 99, 10, 11, 12, 99, 13, 14, 15, 99, 16, 17, 18, 19, 20, 99,
   21, 22, 23, 24, 25, 26, 27, 28, 29, 30, 31, 99, 99, 99, 99, 99,
   99, 99, 10, 11, 12, 99, 13, 14, 15, 99, 16, 17, 18, 19, 20, 99,
   21, 22, 23, 24, 25, 26, 27, 28, 29, 30, 31, 99, 99, 99, 99, 99]

/-- `numForAscii` of `Base32_decode`, for a character below 0x80 -/
def numForAscii (character : BitVec 8) : ℕ :=
  table.getD character.toNat 99

/-- `kChars`: "0123456789bcdfghjklmnpqrstuvwxyz" -/
def kChars : List (BitVec 8) :=
  [0x30, 0x31, 0x32, 0x33, 0x34, 0x35, 0x36, 0x37, 0x38, 0x39, 0x62, 0x63, 0x64, 0x66, 0x67, 0x68,
   0x6a, 0x6b, 0x6c, 0x6d, 0x6e, 0x70, 0x71, 0x72, 0x73, 0x74, 0x75, 0x76, 0x77, 0x78, 0x79, 0x7a]

/-- An element of `kChars`, for a digit below 32 -/
def kChar (digit : ℕ) : BitVec 8 :=
  kChars.getD digit 0

/-- The variables of `Base32_encode`, and of `Base32_decode`, where `work` is `nextByte` -/
structure Coder where
  outIndex : ℕ
  work : ℕ
  bits : ℕ
  output : Buffer

/-- A loop goes on, or the function returns in it. -/
inductive Outcome where
  | going (coder : Coder)
  | returned (value : ℤ) (output : Buffer)

/-- The inner loop of `Base32_encode` -/
def encodeChars (outIndex work bits : ℕ) (output : Buffer) : Checked Outcome :=
  if bits ≥ 5 then
    if outIndex ≥ output.length then .ok (.returned TOO_BIG output)
    else do
      let output ← output.write outIndex (kChar (work &&& 31))
      encodeChars (outIndex + 1) (work >>> 5) (bits - 5) output
  else .ok (.going { outIndex := outIndex, work := work, bits := bits, output := output })
termination_by bits

/-- The loop of `Base32_encode` over the bytes that are left -/
def encodeLoop : List (BitVec 8) → Coder → Checked Outcome
  | [], coder => .ok (.going coder)
  | byte :: rest, coder => do
      match ← encodeChars coder.outIndex (coder.work ||| byte.toNat <<< coder.bits)
          (coder.bits + 8) coder.output with
      | .returned value output => .ok (.returned value output)
      | .going coder => encodeLoop rest coder

/-- The end of `Base32_encode` -/
def finishEncode (outIndex : ℕ) (output : Buffer) : Checked (ℤ × Buffer) := do
  if outIndex < output.length then
    let output ← output.write outIndex 0
    .ok (lengthAsInt outIndex, output)
  else .ok (lengthAsInt outIndex, output)

/-- `Base32_encode` -/
def encode (output input : Buffer) : Checked (ℤ × Buffer) := do
  match ← encodeLoop input.bytes { outIndex := 0, work := 0, bits := 0, output := output } with
  | .returned value output => .ok (value, output)
  | .going coder =>
      if coder.bits ≠ 0 then
        if coder.outIndex ≥ coder.output.length then .ok (TOO_BIG, coder.output)
        else
          let output ← coder.output.write coder.outIndex (kChar (coder.work &&& 31))
          finishEncode (coder.outIndex + 1) output
      else finishEncode coder.outIndex coder.output

/-- The loop of `Base32_decode` over the characters that are left -/
def decodeLoop : List (BitVec 8) → Coder → Checked Outcome
  | [], coder => .ok (.going coder)
  | character :: rest, coder =>
      if character &&& 0x80 ≠ 0 then .ok (.returned BAD_INPUT coder.output)
      else
        let b := numForAscii character
        if b > 31 then .ok (.returned BAD_INPUT coder.output)
        else
          let nextByte := coder.work ||| b <<< coder.bits
          let bits := coder.bits + 5
          if bits ≥ 8 then
            if coder.outIndex ≥ coder.output.length then .ok (.returned TOO_BIG coder.output)
            else do
              let output ← coder.output.write coder.outIndex (BitVec.ofNat 8 nextByte)
              decodeLoop rest
                { outIndex := coder.outIndex + 1, work := nextByte >>> 8, bits := bits - 8,
                  output := output }
          else decodeLoop rest { coder with work := nextByte, bits := bits }

/-- `Base32_decode` -/
def decode (output input : Buffer) : Checked (ℤ × Buffer) := do
  match ← decodeLoop input.bytes { outIndex := 0, work := 0, bits := 0, output := output } with
  | .returned value output => .ok (value, output)
  | .going coder =>
      if coder.bits ≥ 5 ∨ coder.work ≠ 0 then .ok (BAD_INPUT, coder.output)
      else .ok (lengthAsInt coder.outIndex, coder.output)

/-! ## Characters -/

/-- The character is one of those that are read. -/
def IsDigit (character : BitVec 8) : Prop :=
  character &&& 0x80 = 0 ∧ numForAscii character ≤ 31

instance : DecidablePred IsDigit :=
  fun _ => inferInstanceAs (Decidable (_ ∧ _))

theorem isDigit_kChar {digit : ℕ} (small : digit < 32) :
    IsDigit (kChar digit) ∧ numForAscii (kChar digit) = digit ∧
      toLower (kChar digit) = kChar digit := by
  have all : ∀ digit < 32, IsDigit (kChar digit) ∧ numForAscii (kChar digit) = digit ∧
      toLower (kChar digit) = kChar digit := by decide +kernel
  exact all digit small

theorem isDigit_toLower (character : BitVec 8) :
    (IsDigit (toLower character) ↔ IsDigit character) ∧
      numForAscii (toLower character) = numForAscii character := by
  revert character
  decide +kernel

theorem kChar_numForAscii {character : BitVec 8} (valid : IsDigit character) :
    kChar (numForAscii character) = toLower character := by
  revert character
  decide +kernel

end Cjdns.Base32
