import Cjdns.Library.Buffer
import Cjdns.Util.Hex

/-!
# Hexadecimal text in buffers

`Hex_encode` and `Hex_decode` with the lengths of their buffers. `Hex_encode` doubles the length in
32 bits. `Hex_decode` means to refuse texts of odd length, but it takes the length modulo one, and
so it reads the character behind the last one of such a text.
-/

namespace Cjdns.Hex

open Buffer (lengthAsInt lengthOf lengthOf_lengthAsInt toLower)

/-- `Hex_BAD_INPUT` -/
abbrev BAD_INPUT : ℤ := -1

/-- `Hex_TOO_BIG` -/
abbrev TOO_BIG : ℤ := -2

/-- `Hex_isHexEntity` -/
def isHexEntity (character : BitVec 8) : Bool :=
  !(character &&& 0x80 ≠ 0) && numForAscii character < 99

/-- The loop of `Hex_encode`, over the bytes from `i` on -/
def encodeLoop : List (BitVec 8) → BitVec 32 → Buffer → Checked Buffer
  | [], _, output => .ok output
  | byte :: rest, i, output => do
      let output ← output.write (i * 2).toNat (hexEntity (byte.extractLsb' 4 4))
      let output ← output.write (i * 2 + 1).toNat (hexEntity (byte.extractLsb' 0 4))
      encodeLoop rest (i + 1) output

/-- The write of the zero behind the text or the bytes, if there is room -/
def terminate (output : Buffer) (length : ℕ) : Checked Buffer :=
  if output.length > length then output.write length 0 else .ok output

/-- `Hex_encode` -/
def encodeBuffer (output input : Buffer) : Checked (ℤ × Buffer) :=
  let inputLength := BitVec.ofNat 32 input.length
  if output.length < (inputLength * 2).toNat then .ok (TOO_BIG, output)
  else do
    let output ← terminate output (inputLength * 2).toNat
    let output ← encodeLoop input.bytes 0 output
    .ok ((inputLength * 2).toInt, output)

/-- The loop of `Hex_decode`, over the characters from `i` on; it says whether it has come to the
end. -/
def decodeLoop : List (BitVec 8) → ℕ → Buffer → Checked (Bool × Buffer)
  | [], _, output => .ok (true, output)
  | [_], _, _ =>
      -- `hex[i + 1]` is behind the text
      .error .outOfBounds
  | high :: low :: rest, i, output =>
      match decodeByte high low with
      | none => .ok (false, output)
      | some byte => do
          let output ← output.write (i / 2) byte
          decodeLoop rest (i + 2) output

/-- `Hex_decode` -/
def decodeBuffer (output hex : Buffer) : Checked (ℤ × Buffer) :=
  if hex.length % 1 ≠ 0 then .ok (BAD_INPUT, output)
  else if output.length < hex.length / 2 then .ok (TOO_BIG, output)
  else do
    let output ← terminate output (hex.length / 2)
    let (whole, output) ← decodeLoop hex.bytes 0 output
    if whole then .ok (↑(hex.length / 2), output) else .ok (BAD_INPUT, output)

/-! ## Digits -/

theorem numForAscii_cases (character : BitVec 8) :
    (isHexEntity character = true ∧ numForAscii character < 16 ∧ ¬ character ≥ 0x80 ∧
        hexEntity (BitVec.ofNat 4 (numForAscii character)) = toLower character) ∨
      (isHexEntity character = false ∧ (character ≥ 0x80 ∨ numForAscii character = 99)) := by
  revert character
  decide +kernel

theorem extractLsb'_ofNat {high low : ℕ} (highSmall : high < 16) (lowSmall : low < 16) :
    (BitVec.ofNat 8 (high * 16 ||| low)).extractLsb' 4 4 = BitVec.ofNat 4 high ∧
      (BitVec.ofNat 8 (high * 16 ||| low)).extractLsb' 0 4 = BitVec.ofNat 4 low := by
  have all : ∀ high < 16, ∀ low < 16,
      (BitVec.ofNat 8 (high * 16 ||| low)).extractLsb' 4 4 = BitVec.ofNat 4 high ∧
        (BitVec.ofNat 8 (high * 16 ||| low)).extractLsb' 0 4 = BitVec.ofNat 4 low := by
    decide +kernel
  exact all high highSmall low lowSmall

/-- The sum with the sentinel is never below 31. -/
theorem decodeByte_eq (high low : BitVec 8) :
    decodeByte high low =
      if isHexEntity high ∧ isHexEntity low then
        some (BitVec.ofNat 8 (numForAscii high * 16 ||| numForAscii low))
      else none := by
  simp only [decodeByte]
  rcases numForAscii_cases high with ⟨first, highSmall, highAscii, -⟩ | ⟨first, high⟩
  · rcases numForAscii_cases low with ⟨second, lowSmall, lowAscii, -⟩ | ⟨second, low⟩
    · rw [if_neg (not_or.mpr ⟨highAscii, lowAscii⟩), if_pos (by omega), if_pos ⟨first, second⟩]
    · rw [if_neg (by simp [second] : ¬ (isHexEntity _ = true ∧ isHexEntity _ = true))]
      split_ifs with ascii small
      · rfl
      · exact absurd (.inr (low.resolve_right (by omega))) ascii
      · rfl
  · rw [if_neg (by simp [first] : ¬ (isHexEntity _ = true ∧ isHexEntity _ = true))]
    split_ifs with ascii small
    · rfl
    · exact absurd (.inl (high.resolve_right (by omega))) ascii
    · rfl

/-- The digits of the byte that is read from two characters are these characters. -/
theorem decodeByte_cases (high low : BitVec 8) :
    (∃ byte, decodeByte high low = some byte ∧ isHexEntity high = true ∧ isHexEntity low = true ∧
        hexEntity (byte.extractLsb' 4 4) = toLower high ∧
        hexEntity (byte.extractLsb' 0 4) = toLower low) ∨
      (decodeByte high low = none ∧ (isHexEntity high = false ∨ isHexEntity low = false)) := by
  rw [decodeByte_eq]
  rcases numForAscii_cases high with ⟨first, highSmall, -, highBack⟩ | ⟨first, -⟩
  · rcases numForAscii_cases low with ⟨second, lowSmall, -, lowBack⟩ | ⟨second, -⟩
    · have parts := extractLsb'_ofNat highSmall lowSmall
      rw [if_pos ⟨first, second⟩]
      exact .inl ⟨_, rfl, first, second, by rw [parts.1, highBack], by rw [parts.2, lowBack]⟩
    · exact .inr ⟨if_neg (by simp [second]), .inr second⟩
  · exact .inr ⟨if_neg (by simp [first]), .inl first⟩

/-- The characters that make up pairs -/
def paired (text : List (BitVec 8)) : List (BitVec 8) :=
  text.take (2 * (text.length / 2))

theorem paired_cons (high low : BitVec 8) (rest : List (BitVec 8)) :
    paired (high :: low :: rest) = high :: low :: paired rest := by
  have count : 2 * ((rest.length + 1 + 1) / 2) = 2 * (rest.length / 2) + 1 + 1 := by omega
  rw [paired, List.length_cons, List.length_cons, count, List.take_succ_cons, List.take_succ_cons]
  rfl

/-- What is decoded, if it is, are the bytes of which the pairs are the digits. -/
theorem decode_cases (text : List (BitVec 8)) :
    (∃ bytes, decode text = some bytes ∧ (∀ character ∈ paired text, isHexEntity character) ∧
        bytes.length = text.length / 2 ∧ encode bytes = (paired text).map toLower) ∨
      (decode text = none ∧ ∃ character ∈ paired text, isHexEntity character = false) := by
  induction text using decode.induct with
  | case1 high low rest ih =>
      rw [decode, paired_cons]
      rcases decodeByte_cases high low with ⟨byte, read, highDigit, lowDigit, highBack, lowBack⟩ |
        ⟨none, other⟩
      · rcases ih with ⟨bytes, decodes, digits, length, back⟩ | ⟨none, character, mem, other⟩
        · left
          refine ⟨byte :: bytes, by rw [read, decodes]; rfl, ?_, ?_, ?_⟩
          · simpa [highDigit, lowDigit] using digits
          · simp only [List.length_cons]
            omega
          · rw [encode_cons, highBack, lowBack, back, List.map_cons, List.map_cons]
        · right
          exact ⟨by rw [read, none]; rfl, character, by simp [mem], other⟩
      · right
        refine ⟨by rw [none]; rfl, ?_⟩
        rcases other with other | other
        · exact ⟨high, by simp, other⟩
        · exact ⟨low, by simp, other⟩
  | case2 text short =>
      left
      rcases text with _ | ⟨first, _ | ⟨second, rest⟩⟩
      · exact ⟨[], rfl, by simp [paired], rfl, rfl⟩
      · exact ⟨[], rfl, by simp [paired], by simp, by simp [paired, encode]⟩
      · exact absurd rfl (short first second rest)

/-! ## The loops -/

variable {original buffer output input text : Buffer} {front : List (BitVec 8)}

theorem terminate_spec (output : Buffer) (length : ℕ) :
    ∃ after, terminate output length = .ok after ∧ after.length = output.length := by
  rw [terminate]
  split_ifs with room
  · exact ⟨_, if_pos room, List.length_set⟩
  · exact ⟨output, rfl, rfl⟩

/-- The indices of the two digits of a byte -/
theorem toNat_indices {i : BitVec 32} (small : 2 * i.toNat + 1 < 2 ^ 32) :
    (i * 2).toNat = 2 * i.toNat ∧ (i * 2 + 1).toNat = 2 * i.toNat + 1 ∧
      (i + 1).toNat = i.toNat + 1 := by
  have double : (i * 2).toNat = 2 * i.toNat := by
    rw [BitVec.toNat_mul, show (2 : BitVec 32).toNat = 2 from rfl]
    omega
  rw [BitVec.toNat_add, BitVec.toNat_add, double, show (1 : BitVec 32).toNat = 1 from rfl]
  omega

/-- As long as there is room, the digits are written one after the other. -/
theorem encodeLoop_spec (filled : original.Filled front buffer) (rest : List (BitVec 8))
    {i : BitVec 32} (place : 2 * i.toNat = front.length)
    (room : front.length + 2 * rest.length ≤ original.length) :
    ∃ after, encodeLoop rest i buffer = .ok after ∧
      original.Filled (front ++ encode rest) after := by
  induction rest generalizing front buffer i with
  | nil =>
      refine ⟨buffer, rfl, ?_⟩
      rw [show encode [] = [] from rfl, List.append_nil]
      exact filled
  | cons byte rest ih =>
      have small := original.length_lt
      rw [List.length_cons] at room
      rw [← Buffer.length] at small
      rcases toNat_indices (i := i) (by omega) with ⟨first, second, next⟩
      rw [place] at first second
      rcases filled.write (by omega) (hexEntity (byte.extractLsb' 4 4)) with
        ⟨once, writesHigh, filled⟩
      rcases filled.write (by rw [List.length_append, List.length_singleton]; omega)
        (hexEntity (byte.extractLsb' 0 4)) with ⟨twice, writesLow, filled⟩
      rw [List.length_append, List.length_singleton] at writesLow
      rw [encodeLoop, first, writesHigh, second]
      simp only [bind, Except.bind]
      rw [writesLow, encode_cons]
      rw [List.append_assoc] at filled
      have length : (front ++ ([hexEntity (byte.extractLsb' 4 4)] ++
          [hexEntity (byte.extractLsb' 0 4)])).length = front.length + 2 := by simp
      rcases ih filled (i := i + 1) (by omega) (by omega) with ⟨after, runs, filled⟩
      refine ⟨after, runs, ?_⟩
      rwa [List.append_assoc] at filled

/-- Whatever has been written was inside of the buffer. -/
theorem lt_length_of_encodeLoop {rest : List (BitVec 8)} {i : BitVec 32} {after : Buffer}
    (runs : encodeLoop rest i output = .ok after) (count : ℕ) (inside : count < rest.length) :
    ((i + BitVec.ofNat 32 count) * 2 + 1).toNat < output.length := by
  induction rest generalizing i output count with
  | nil => exact absurd inside (Nat.not_lt_zero count)
  | cons byte rest ih =>
      rw [encodeLoop, Checked.bind_eq_ok] at runs
      rcases runs with ⟨once, writesHigh, runs⟩
      rw [Checked.bind_eq_ok] at runs
      rcases runs with ⟨twice, writesLow, runs⟩
      rcases Buffer.lt_length_of_write writesHigh with ⟨-, sameHigh⟩
      rcases Buffer.lt_length_of_write writesLow with ⟨second, sameLow⟩
      rw [← sameHigh]
      cases count with
      | zero => simpa using second
      | succ count =>
          have later := ih runs count (Nat.lt_of_succ_lt_succ inside)
          have next : i + BitVec.ofNat 32 (count + 1) = i + 1 + BitVec.ofNat 32 count := by
            rw [Nat.add_comm, BitVec.ofNat_add, BitVec.add_assoc]
            rfl
          rwa [sameLow, ← next] at later

/-- What the loop of `Hex_decode` comes to: it ends at a bad pair, or with the bytes written, or
behind the text. -/
theorem decodeLoop_cases (filled : original.Filled front buffer) (text : List (BitVec 8))
    (room : front.length + text.length / 2 ≤ original.length) :
    (decode text = none ∧
        ∃ after, decodeLoop text (2 * front.length) buffer = .ok (false, after)) ∨
      (∃ bytes, decode text = some bytes ∧ text.length % 2 = 0 ∧
        ∃ after, decodeLoop text (2 * front.length) buffer = .ok (true, after) ∧
          original.Filled (front ++ bytes) after) ∨
      ((decode text).isSome ∧ text.length % 2 = 1 ∧
        decodeLoop text (2 * front.length) buffer = .error .outOfBounds) := by
  induction text using decode.induct generalizing front buffer with
  | case1 high low rest ih =>
      rw [List.length_cons, List.length_cons] at room ⊢
      rw [decode, decodeLoop]
      cases reads : decodeByte high low with
      | none => exact .inl ⟨rfl, buffer, rfl⟩
      | some byte =>
          rcases filled.write (by omega) byte with ⟨output, writes, filled⟩
          have length : (front ++ [byte]).length = front.length + 1 := by simp
          have half : 2 * front.length / 2 = front.length := by omega
          have next : 2 * front.length + 2 = 2 * (front ++ [byte]).length := by omega
          simp only [Option.bind_some, half, writes, bind, Except.bind, next]
          rcases ih filled (by omega) with ⟨none, ends⟩ | ⟨bytes, some, even, after, ends, filled⟩ |
            ⟨some, odd, faults⟩
          · exact .inl ⟨by rw [none]; rfl, ends⟩
          · rw [List.append_assoc] at filled
            exact .inr (.inl ⟨byte :: bytes, by rw [some]; rfl, by omega, after, ends, filled⟩)
          · exact .inr (.inr ⟨by simpa using some, by omega, faults⟩)
  | case2 text short =>
      rcases text with _ | ⟨first, _ | ⟨second, rest⟩⟩
      · refine .inr (.inl ⟨[], rfl, rfl, buffer, rfl, ?_⟩)
        rwa [List.append_nil]
      · exact .inr (.inr ⟨rfl, rfl, rfl⟩)
      · exact absurd rfl (short first second rest)

/-! ## The functions -/

theorem double_ofNat (length : ℕ) :
    BitVec.ofNat 32 length * 2 = BitVec.ofNat 32 (2 * length) := by
  rw [Nat.mul_comm, BitVec.ofNat_mul]
  rfl

/-- `Hex_encode` of bytes whose text has a length in 32 bits -/
theorem encodeBuffer_eq (output : Buffer) (small : input.length < 2 ^ 31) :
    (output.length < 2 * input.length ∧ encodeBuffer output input = .ok (TOO_BIG, output)) ∨
      (2 * input.length ≤ output.length ∧
        ∃ after, encodeBuffer output input = .ok (lengthAsInt (2 * input.length), after) ∧
          after.bytes.take (2 * input.length) = encode input.bytes) := by
  have double : (BitVec.ofNat 32 input.length * 2).toNat = 2 * input.length := by
    rw [double_ofNat, BitVec.toNat_ofNat]
    omega
  simp only [encodeBuffer, double]
  split_ifs with short
  · exact .inl ⟨short, rfl⟩
  · refine .inr ⟨not_lt.mp short, ?_⟩
    rcases terminate_spec output (2 * input.length) with ⟨ended, ends, length⟩
    rcases encodeLoop_spec (.start ended) input.bytes (i := 0) rfl
      (by rw [length]; change 0 + 2 * input.length ≤ output.length; omega) with
      ⟨after, runs, filled⟩
    rw [ends]
    simp only [bind, Except.bind]
    rw [runs, double_ofNat]
    refine ⟨after, rfl, ?_⟩
    have taken := filled.take_eq
    rwa [List.nil_append, length_encode] at taken

/-- From 2^31 bytes on, the length wraps, and the digits are written outside of a long buffer. -/
theorem not_safe_encodeBuffer (large : 2 ^ 31 ≤ input.length) :
    ¬ Checked.Safe (encodeBuffer (.zeros (BitVec.allOnes 32)) input) := by
  rintro ⟨⟨value, after⟩, runs⟩
  have long : (Buffer.zeros (BitVec.allOnes 32)).length = 2 ^ 32 - 1 := by
    rw [Buffer.length_zeros, BitVec.toNat_allOnes]
  have even : (BitVec.ofNat 32 input.length * 2).toNat < 2 ^ 32 - 1 := by
    rw [BitVec.toNat_mul, show (2 : BitVec 32).toNat = 2 from rfl]
    omega
  rw [encodeBuffer, if_neg (by rw [long]; omega), Checked.bind_eq_ok] at runs
  rcases runs with ⟨ended, ends, runs⟩
  rw [Checked.bind_eq_ok] at runs
  rcases runs with ⟨written, writes, -⟩
  have last := lt_length_of_encodeLoop writes (2 ^ 31 - 1)
    (lt_of_lt_of_le (by decide) large)
  have most := ended.length_lt
  have top : ((0 + BitVec.ofNat 32 (2 ^ 31 - 1)) * 2 + 1 : BitVec 32).toNat = 2 ^ 32 - 1 := rfl
  rw [top, Buffer.length] at last
  omega

/-- What `Hex_decode` makes of a text -/
theorem decodeBuffer_cases (output text : Buffer) :
    (output.length < text.length / 2 ∧ decodeBuffer output text = .ok (TOO_BIG, output)) ∨
      (text.length / 2 ≤ output.length ∧ decode text.bytes = none ∧
        ∃ after, decodeBuffer output text = .ok (BAD_INPUT, after)) ∨
      (text.length / 2 ≤ output.length ∧ ∃ bytes, decode text.bytes = some bytes ∧
        text.length % 2 = 0 ∧
        ∃ after, decodeBuffer output text = .ok (↑(text.length / 2), after) ∧
          after.bytes.take (text.length / 2) = bytes) ∨
      (text.length / 2 ≤ output.length ∧ (decode text.bytes).isSome ∧ text.length % 2 = 1 ∧
        decodeBuffer output text = .error .outOfBounds) := by
  rw [decodeBuffer, if_neg (by rw [Nat.mod_one]; exact not_ne_iff.mpr rfl)]
  split_ifs with short
  · exact .inl ⟨short, rfl⟩
  · have room := not_lt.mp short
    rcases terminate_spec output (text.length / 2) with ⟨ended, ends, length⟩
    rw [ends]
    simp only [bind, Except.bind]
    rcases decodeLoop_cases (.start ended) text.bytes
        (by rw [length, List.length_nil, Nat.zero_add]; exact room) with
      ⟨none, after, runs⟩ | ⟨bytes, some, even, after, runs, filled⟩ | ⟨some, odd, faults⟩
    · rw [List.length_nil, Nat.mul_zero] at runs
      rw [runs]
      exact .inr (.inl ⟨room, none, after, rfl⟩)
    · rw [List.length_nil, Nat.mul_zero] at runs
      rw [runs]
      refine .inr (.inr (.inl ⟨room, bytes, some, even, after, rfl, ?_⟩))
      have taken := filled.take_eq
      rcases decode_cases text.bytes with ⟨again, same, -, count, -⟩ | ⟨none, -⟩
      · rw [some, Option.some.injEq] at same
        rw [← same, ← Buffer.length] at count
        rwa [List.nil_append, count] at taken
      · rw [some] at none
        cases none
    · rw [List.length_nil, Nat.mul_zero] at faults
      rw [faults]
      exact .inr (.inr (.inr ⟨room, some, odd, rfl⟩))

/-! ## What the codec is to do -/

/-- What is encoded is decoded, if there is room for it. -/
def RoundTrips (input : Buffer) : Prop :=
  ∀ text output : Buffer, input.length ≤ output.length →
    (text.length < 2 * input.length ∧ encodeBuffer text input = .ok (TOO_BIG, text)) ∨
      ∃ value after decoded, encodeBuffer text input = .ok (value, after) ∧
        decodeBuffer output (after.take (lengthOf value)) = .ok (↑input.length, decoded) ∧
        decoded.bytes.take input.length = input.bytes

/-- The text is pairs of digits. -/
def IsHex (text : Buffer) : Prop :=
  text.length % 2 = 0 ∧ ∀ character ∈ text.bytes, isHexEntity character

/-- `Hex_encode` of the bytes is the text in lower case. -/
def GivesBack (text bytes : Buffer) : Prop :=
  ∀ again : Buffer, text.length ≤ again.length →
    ∃ value after, encodeBuffer again bytes = .ok (value, after) ∧
      after.bytes.take text.length = text.bytes.map toLower

/-- Nothing but the text is read; it is decoded if it is pairs of digits and there is room for the
bytes, and is refused otherwise. -/
def Decodes (output text : Buffer) : Prop :=
  ∃ value after, decodeBuffer output text = .ok (value, after) ∧
    (IsHex text ∧ text.length / 2 ≤ output.length →
      value = ↑(text.length / 2) ∧ GivesBack text (after.take (text.length / 2))) ∧
    (¬ (IsHex text ∧ text.length / 2 ≤ output.length) → value = BAD_INPUT ∨ value = TOO_BIG)

/-- The text is pairs of digits but for one more character behind them. -/
def Unpaired (text : Buffer) : Prop :=
  text.length % 2 = 1 ∧ ∀ character ∈ text.bytes.dropLast, isHexEntity character

theorem paired_of_even {text : List (BitVec 8)} (even : text.length % 2 = 0) :
    paired text = text := by
  rw [paired, List.take_of_length_le (by omega)]

theorem paired_of_odd {text : List (BitVec 8)} (odd : text.length % 2 = 1) :
    paired text = text.dropLast := by
  rw [paired, List.dropLast_eq_take]
  congr 1
  omega

theorem roundTrips_iff_length_lt : RoundTrips input ↔ input.length < 2 ^ 31 := by
  constructor
  · intro roundTrips
    by_contra large
    have faults := not_safe_encodeBuffer (not_lt.mp large)
    rcases roundTrips (.zeros (BitVec.allOnes 32)) input (le_refl _) with
      ⟨-, runs⟩ | ⟨value, after, -, runs, -⟩
    · exact faults ⟨_, runs⟩
    · exact faults ⟨_, runs⟩
  · intro small text output room
    rcases encodeBuffer_eq text small with refused | ⟨fits, after, runs, taken⟩
    · exact .inl refused
    · right
      have bytes : (after.take (2 * input.length)).bytes = encode input.bytes := taken
      have length : (after.take (2 * input.length)).length = 2 * input.length := by
        rw [Buffer.length, bytes, length_encode]
        rfl
      have half : 2 * input.length / 2 = input.length := by omega
      refine ⟨lengthAsInt (2 * input.length), after, ?_⟩
      rw [lengthOf_lengthAsInt (by omega)]
      rcases decodeBuffer_cases output (after.take (2 * input.length)) with
        ⟨short, -⟩ | ⟨-, none, -⟩ | ⟨-, back, some, -, decoded, reads, written⟩ | ⟨-, -, odd, -⟩
      · omega
      · rw [bytes, decode_encode] at none
        cases none
      · rw [bytes, decode_encode, Option.some.injEq] at some
        rw [length, half] at reads written
        rw [some]
        exact ⟨decoded, runs, reads, written⟩
      · omega

/-- What is decoded is given back. -/
theorem givesBack_of_decode {bytes : Buffer} (even : text.length % 2 = 0)
    (decodes : decode text.bytes = some bytes.bytes) : GivesBack text bytes := by
  intro again room
  rcases decode_cases text.bytes with ⟨_, same, -, count, back⟩ | ⟨none, -⟩
  · rw [decodes, Option.some.injEq] at same
    rw [← same] at count back
    rw [paired_of_even even] at back
    have whole : 2 * bytes.length = text.length := by
      rw [Buffer.length, count]
      change 2 * (text.length / 2) = text.length
      omega
    have most := text.length_lt
    rw [← Buffer.length] at most
    rcases encodeBuffer_eq again (by omega : bytes.length < 2 ^ 31) with
      ⟨short, -⟩ | ⟨-, after, runs, taken⟩
    · omega
    · rw [whole, back] at taken
      exact ⟨_, after, runs, taken⟩
  · rw [decodes] at none
    cases none

theorem decodes_iff :
    Decodes output text ↔ ¬ (Unpaired text ∧ text.length / 2 ≤ output.length) := by
  have digits := decode_cases text.bytes
  rcases decodeBuffer_cases output text with
    ⟨short, runs⟩ | ⟨room, none, after, runs⟩ | ⟨room, bytes, some, even, after, runs, taken⟩ |
    ⟨room, some, odd, faults⟩
  · refine iff_of_true ⟨_, _, runs, ?_, ?_⟩ fun unpaired => not_le.mpr short unpaired.2
    · exact fun fine => absurd fine.2 (not_le.mpr short)
    · exact fun _ => .inr rfl
  · rcases digits with ⟨_, some, -⟩ | ⟨-, character, mem, other⟩
    · rw [none] at some
      cases some
    · refine iff_of_true ⟨_, _, runs, ?_, fun _ => .inl rfl⟩ ?_
      · rintro ⟨⟨-, all⟩, -⟩
        rw [all character (List.mem_of_mem_take mem)] at other
        cases other
      · rintro ⟨⟨odd, all⟩, -⟩
        rw [paired_of_odd odd] at mem
        rw [all character mem] at other
        cases other
  · rcases digits with ⟨_, -, all, -⟩ | ⟨none, -⟩
    · rw [paired_of_even even] at all
      refine iff_of_true ⟨_, _, runs, ?_, ?_⟩ ?_
      · exact fun _ => ⟨rfl, givesBack_of_decode even (by rw [some]; exact congrArg _ taken.symm)⟩
      · exact fun bad => absurd ⟨⟨even, all⟩, room⟩ bad
      · rintro ⟨⟨odd, -⟩, -⟩
        omega
    · rw [some] at none
      cases none
  · rcases digits with ⟨_, -, all, -⟩ | ⟨none, -⟩
    · rw [paired_of_odd odd] at all
      refine iff_of_false ?_ (not_not.mpr ⟨⟨odd, all⟩, room⟩)
      rintro ⟨value, after, runs, -⟩
      rw [faults] at runs
      cases runs
    · rw [none] at some
      cases some

/--
What `Hex.c` gets right: bytes come back as long as the length of their text has 32 bits, and a
text is decoded or refused unless it is pairs of digits with one more character behind them.
-/
theorem hexCodec_iff (input output text : Buffer) :
    (RoundTrips input ↔ input.length < 2 ^ 31) ∧
      (Decodes output text ↔ ¬ (Unpaired text ∧ text.length / 2 ≤ output.length)) :=
  ⟨roundTrips_iff_length_lt, decodes_iff⟩

/-- A private key that is read together with the character behind it -/
theorem odd_length_is_read_past_the_end :
    ¬ ((∀ input : Buffer, RoundTrips input) ∧ ∀ output text : Buffer, Decodes output text) := by
  rintro ⟨-, decodes⟩
  have digits : Decodes (.zeros 32) ⟨List.replicate 65 0x61, by decide⟩ := decodes _ _
  rcases digits with ⟨value, after, runs, -⟩
  cases runs

end Cjdns.Hex
