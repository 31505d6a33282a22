import Cjdns.Util.Base32

/-!
# The base 32 codec

Encoding packs bytes into digits of five bits, and decoding unpacks them. What is left in the
accumulator at the end of `Base32_decode` tells whether the digits are those of bytes.
-/

namespace Cjdns.Base32

open Regrouping
open Buffer (lengthAsInt lengthAsInt_eq lengthOf lengthOf_lengthAsInt toLower)

/-- The bytes as numbers -/
def numbers (bytes : List (BitVec 8)) : List ℕ :=
  bytes.map BitVec.toNat

theorem numbers_lt (bytes : List (BitVec 8)) : ∀ number ∈ numbers bytes, number < 2 ^ 8 := by
  intro number mem
  rcases List.mem_map.mp mem with ⟨byte, -, rfl⟩
  exact byte.isLt

theorem numbers_injective : Function.Injective numbers :=
  List.map_injective_iff.mpr fun _ _ same => BitVec.eq_of_toNat_eq same

theorem and_31 (work : ℕ) : work &&& 31 = work % 2 ^ 5 :=
  Nat.and_two_pow_sub_one_eq_mod work 5

/-! ## Encoding -/

/-- Bytes have been taken, and characters have been written for their digits. -/
structure Encoding (original : Buffer) (taken : List (BitVec 8)) (given : List ℕ)
    (coder : Coder) : Prop where
  regrouped : Regrouped 8 5 (numbers taken) given coder.work coder.bits
  filled : original.Filled (given.map kChar) coder.output
  outIndex_eq : coder.outIndex = given.length

/-- Either all that has been taken is written, but for a part of a digit, or it has no room. -/
def EncodesOrEnds (original : Buffer) (taken : List (BitVec 8)) : Outcome → Prop
  | .going coder => coder.bits < 5 ∧ ∃ given, Encoding original taken given coder
  | .returned value output =>
      value = TOO_BIG ∧ output.length = original.length ∧ 5 * original.length < 8 * taken.length

variable {original : Buffer} {taken : List (BitVec 8)} {given : List ℕ} {coder : Coder}

theorem Encoding.size (encoding : Encoding original taken given coder) :
    8 * taken.length = 5 * given.length + coder.bits := by
  have size := encoding.regrouped.size
  rwa [numbers, List.length_map] at size

/-- A character is written if there is room. -/
theorem Encoding.write (encoding : Encoding original taken given coder)
    (room : given.length < original.length) (digit : ℕ) :
    ∃ output, coder.output.write coder.outIndex (kChar digit) = .ok output ∧
      original.Filled ((given ++ [digit]).map kChar) output := by
  have inside : (given.map kChar).length < original.length := by rwa [List.length_map]
  rcases encoding.filled.write inside (kChar digit) with ⟨output, written, filled⟩
  refine ⟨output, ?_, ?_⟩
  · rw [List.length_map] at written
    rwa [encoding.outIndex_eq]
  · rwa [List.map_append, List.map_singleton]

theorem encodeChars_spec (encoding : Encoding original taken given coder) :
    ∃ outcome, encodeChars coder.outIndex coder.work coder.bits coder.output = .ok outcome ∧
      EncodesOrEnds original taken outcome := by
  induction size : coder.bits using Nat.strong_induction_on generalizing coder given with
  | _ bits ih =>
      subst size
      rw [encodeChars]
      split_ifs with ready full
      · have outIndex := encoding.outIndex_eq
        have length := encoding.filled.length
        have counts := encoding.size
        exact ⟨_, rfl, rfl, length, by omega⟩
      · have length := encoding.filled.length
        have room : given.length < original.length := by
          rw [← encoding.outIndex_eq, ← length]
          omega
        rcases encoding.write room (coder.work % 2 ^ 5) with ⟨output, written, filled⟩
        rw [and_31, written]
        have next : Encoding original taken (given ++ [coder.work % 2 ^ 5])
            { outIndex := coder.outIndex + 1, work := coder.work >>> 5, bits := coder.bits - 5,
              output := output } :=
          { regrouped := encoding.regrouped.give ready
            filled := filled
            outIndex_eq := by simp [encoding.outIndex_eq] }
        exact ih (coder.bits - 5) (by omega) next rfl
      · exact ⟨_, rfl, by simpa using ready, given, encoding⟩

theorem encodeLoop_spec (encoding : Encoding original taken given coder) (part : coder.bits < 5)
    (rest : List (BitVec 8)) :
    ∃ outcome, encodeLoop rest coder = .ok outcome ∧
      EncodesOrEnds original (taken ++ rest) outcome := by
  induction rest generalizing taken given coder with
  | nil => exact ⟨_, rfl, part, given, by rwa [List.append_nil]⟩
  | cons byte rest ih =>
      have next : Encoding original (taken ++ [byte]) given
          { coder with
            work := coder.work ||| byte.toNat <<< coder.bits
            bits := coder.bits + 8 } :=
        { regrouped := by
            rw [numbers, List.map_append]
            exact encoding.regrouped.take byte.isLt
          filled := encoding.filled
          outIndex_eq := encoding.outIndex_eq }
      rcases encodeChars_spec next with ⟨outcome, runs, holds⟩
      rw [encodeLoop, runs]
      cases outcome with
      | returned value output =>
          rcases holds with ⟨tooBig, length, short⟩
          refine ⟨_, rfl, tooBig, length, ?_⟩
          simp only [List.length_append, List.length_cons, List.length_nil] at short ⊢
          omega
      | going coder =>
          rcases holds with ⟨part, given, encoding⟩
          rcases ih encoding part with ⟨outcome, runs, holds⟩
          refine ⟨outcome, runs, ?_⟩
          rwa [List.append_assoc, List.singleton_append] at holds

/-- What `Base32_encode` leaves in the buffer: the characters, and a zero if there is room. -/
def written (digits : List ℕ) (output : Buffer) : List (BitVec 8) :=
  digits.map kChar ++
    if digits.length < output.length then 0 :: output.bytes.drop (digits.length + 1) else []

theorem finishEncode_spec {buffer : Buffer} (filled : original.Filled (given.map kChar) buffer) :
    ∃ after, finishEncode given.length buffer = .ok (lengthAsInt given.length, after) ∧
      after.bytes = written given original := by
  have length := filled.length
  have bytes := filled.bytes
  rw [List.length_map] at bytes
  rw [finishEncode, written, length]
  split_ifs with room
  · rcases filled.write (by rwa [List.length_map]) 0 with ⟨after, written, extended⟩
    rw [List.length_map] at written
    rw [written]
    refine ⟨after, rfl, ?_⟩
    rw [extended.bytes, List.append_assoc, List.length_append, List.length_map]
    rfl
  · refine ⟨buffer, rfl, ?_⟩
    rw [bytes, List.drop_eq_nil_of_le (not_lt.mp room)]

/-- `Base32_encode` writes the packing of the bytes, or finds that it has no room. -/
theorem encode_eq {digits : List ℕ} (output input : Buffer)
    (packs : Packs 8 5 (numbers input.bytes) digits) :
    ∃ after, (digits.length ≤ output.length ∧
        encode output input = .ok (lengthAsInt digits.length, after) ∧
        after.bytes = written digits output) ∨
      (output.length < digits.length ∧ encode output input = .ok (TOO_BIG, after)) := by
  have start : Encoding output [] [] { outIndex := 0, work := 0, bits := 0, output := output } :=
    { regrouped := Regrouped.start 8 5
      filled := .start output
      outIndex_eq := rfl }
  rcases encodeLoop_spec start (by simp) input.bytes with ⟨outcome, runs, holds⟩
  have enough := packs.enough
  rw [numbers, List.length_map] at enough
  rw [encode, runs]
  cases outcome with
  | returned value after =>
      rcases holds with ⟨rfl, -, short⟩
      rw [List.nil_append] at short
      exact ⟨after, .inr ⟨by omega, rfl⟩⟩
  | going coder =>
      rcases holds with ⟨part, given, encoding⟩
      rw [List.nil_append] at encoding
      have outIndex := encoding.outIndex_eq
      have length := encoding.filled.length
      simp only [bind, Except.bind]
      by_cases whole : coder.bits = 0
      · have regrouped := encoding.regrouped
        rw [whole] at regrouped
        obtain rfl := packs.target_eq (regrouped.packs_of_bits_eq_zero (by decide)) (by decide)
        rcases finishEncode_spec encoding.filled with ⟨after, runs, bytes⟩
        have fits := encoding.filled.fits
        rw [List.length_map] at fits
        rw [if_neg (by simpa using whole), outIndex]
        exact ⟨after, .inl ⟨fits, runs, bytes⟩⟩
      · obtain rfl := packs.target_eq (encoding.regrouped.packs_append (by omega) part) (by decide)
        rw [if_pos whole, List.length_append, List.length_singleton]
        split_ifs with full
        · exact ⟨coder.output, .inr ⟨by omega, rfl⟩⟩
        · have room : given.length < output.length := by omega
          have small : coder.work % 2 ^ 5 = coder.work := by
            apply Nat.mod_eq_of_lt
            exact lt_of_lt_of_le encoding.regrouped.work_lt
              (Nat.pow_le_pow_right (by decide) (by omega))
          rcases encoding.write room coder.work with ⟨output, written, filled⟩
          rcases finishEncode_spec filled with ⟨after, runs, bytes⟩
          rw [List.length_append, List.length_singleton] at runs
          rw [and_31, small, written, outIndex]
          exact ⟨after, .inl ⟨room, runs, bytes⟩⟩

/-! ## Decoding -/

/-- The text is the digits of the bytes. -/
def Spells (text bytes : List (BitVec 8)) : Prop :=
  (∀ character ∈ text, IsDigit character) ∧ Packs 8 5 (numbers bytes) (text.map numForAscii)

/-- Characters have been taken, and the bytes that they give have been written. -/
structure Decoding (original : Buffer) (text bytes : List (BitVec 8)) (coder : Coder) : Prop where
  valid : ∀ character ∈ text, IsDigit character
  regrouped : Regrouped 5 8 (text.map numForAscii) (numbers bytes) coder.work coder.bits
  filled : original.Filled bytes coder.output
  outIndex_eq : coder.outIndex = bytes.length

/-- Either the whole text is taken, or it has a bad character, or it has no room. -/
def DecodesOrEnds (original : Buffer) (text : List (BitVec 8)) : Outcome → Prop
  | .going coder => coder.bits < 8 ∧ ∃ bytes, Decoding original text bytes coder
  | .returned value _ =>
      (value = BAD_INPUT ∧ ∃ character ∈ text, ¬ IsDigit character) ∨
        (value = TOO_BIG ∧ 8 * original.length + 8 ≤ 5 * text.length)

variable {text bytes : List (BitVec 8)}

theorem Decoding.size (decoding : Decoding original text bytes coder) :
    5 * text.length = 8 * bytes.length + coder.bits := by
  have size := decoding.regrouped.size
  rwa [numbers, List.length_map, List.length_map] at size

/-- A digit is put on top of what is left. -/
theorem Decoding.take (decoding : Decoding original text bytes coder) {character : BitVec 8}
    (valid : IsDigit character) :
    Decoding original (text ++ [character]) bytes
      { coder with
        work := coder.work ||| numForAscii character <<< coder.bits
        bits := coder.bits + 5 } where
  valid := by
    intro other mem
    rcases List.mem_append.mp mem with old | new
    · exact decoding.valid other old
    · rw [List.mem_singleton.mp new]
      exact valid
  regrouped := by
    rw [List.map_append]
    exact decoding.regrouped.take (Nat.lt_succ_of_le valid.2)
  filled := decoding.filled
  outIndex_eq := decoding.outIndex_eq

/-- A byte is written if there is room. -/
theorem Decoding.give (decoding : Decoding original text bytes coder) (ready : coder.bits ≥ 8)
    (room : ¬ coder.outIndex ≥ coder.output.length) :
    ∃ output, coder.output.write coder.outIndex (BitVec.ofNat 8 coder.work) = .ok output ∧
      Decoding original text (bytes ++ [BitVec.ofNat 8 coder.work])
        { outIndex := coder.outIndex + 1, work := coder.work >>> 8, bits := coder.bits - 8,
          output := output } := by
  have outIndex := decoding.outIndex_eq
  have length := decoding.filled.length
  rcases decoding.filled.write (by omega) (BitVec.ofNat 8 coder.work) with
    ⟨output, written, filled⟩
  refine ⟨output, by rwa [outIndex], decoding.valid, ?_, filled, ?_⟩
  · rw [numbers, List.map_append, List.map_singleton, BitVec.toNat_ofNat]
    exact decoding.regrouped.give ready
  · rw [outIndex, List.length_append, List.length_singleton]

theorem decodeLoop_spec (decoding : Decoding original text bytes coder) (part : coder.bits < 8)
    (rest : List (BitVec 8)) :
    ∃ outcome, decodeLoop rest coder = .ok outcome ∧
      DecodesOrEnds original (text ++ rest) outcome := by
  induction rest generalizing text bytes coder with
  | nil => exact ⟨_, rfl, part, bytes, by rwa [List.append_nil]⟩
  | cons character rest ih =>
      have split : text ++ character :: rest = (text ++ [character]) ++ rest := by simp
      have bad (invalid : ¬ IsDigit character) :
          DecodesOrEnds original (text ++ character :: rest)
            (.returned BAD_INPUT coder.output) :=
        .inl ⟨rfl, character, by simp, invalid⟩
      simp only [decodeLoop]
      split_ifs with high large ready full
      · exact ⟨_, rfl, bad fun valid => high valid.1⟩
      · exact ⟨_, rfl, bad fun valid => not_le.mpr large valid.2⟩
      all_goals
        have next := decoding.take ⟨not_ne_iff.mp high, not_lt.mp large⟩
      · refine ⟨_, rfl, .inr ⟨rfl, ?_⟩⟩
        have size := next.size
        have outIndex := next.outIndex_eq
        have length := decoding.filled.length
        simp only [List.length_append, List.length_cons, List.length_nil] at size outIndex ⊢
        omega
      · rcases next.give ready full with ⟨output, written, given⟩
        rw [written, split]
        exact ih given (by simp only; omega)
      · rw [split]
        exact ih next (not_le.mp ready)

/-- What `Base32_decode` returns, and what it writes -/
theorem decode_eq (output input : Buffer) :
    ∃ value after, decode output input = .ok (value, after) ∧
      ((∃ bytes, Spells input.bytes bytes ∧ bytes.length ≤ output.length ∧
          value = lengthAsInt bytes.length ∧
          after.bytes = bytes ++ output.bytes.drop bytes.length) ∨
        (value = BAD_INPUT ∧ ¬ ∃ bytes, Spells input.bytes bytes) ∨
        (value = TOO_BIG ∧ 8 * output.length + 8 ≤ 5 * input.length)) := by
  have start : Decoding output [] [] { outIndex := 0, work := 0, bits := 0, output := output } :=
    { valid := by simp
      regrouped := Regrouped.start 5 8
      filled := .start output
      outIndex_eq := rfl }
  rcases decodeLoop_spec start (by simp) input.bytes with ⟨outcome, runs, holds⟩
  rw [List.nil_append] at holds
  rw [decode, runs]
  simp only [bind, Except.bind]
  cases outcome with
  | returned value after =>
      refine ⟨value, after, rfl, .inr ?_⟩
      rcases holds with ⟨rfl, character, mem, invalid⟩ | tooBig
      · left
        refine ⟨rfl, ?_⟩
        rintro ⟨bytes, valid, -⟩
        exact invalid (valid character mem)
      · exact .inr tooBig
  | going coder =>
      rcases holds with ⟨part, bytes, decoding⟩
      have regrouped := decoding.regrouped
      dsimp only
      split_ifs with left
      · refine ⟨_, _, rfl, .inr (.inl ⟨rfl, ?_⟩)⟩
        rintro ⟨source, -, packs⟩
        have none := packs.left_of_regrouped regrouped part (by decide) (by decide)
        rcases left with many | nonzero
        · omega
        · exact nonzero none.2
      · rw [not_or, not_le, not_ne_iff] at left
        rw [left.2] at regrouped
        rw [decoding.outIndex_eq]
        exact ⟨_, _, rfl, .inl ⟨bytes, ⟨decoding.valid, regrouped.packs_of_zero left.1⟩,
          decoding.filled.fits, rfl, decoding.filled.bytes⟩⟩

/-! ## Lengths as returned -/

/-- No text has a length that is returned as an error. -/
theorem lengthAsInt_digits_ne {bytes : List (BitVec 8)} {digits : List ℕ}
    (packs : Packs 8 5 (numbers bytes) digits) (small : digits.length < 2 ^ 32) :
    lengthAsInt digits.length ≠ TOO_BIG := by
  have enough := packs.enough
  have tight := packs.tight
  rw [numbers, List.length_map] at enough tight
  rw [lengthAsInt_eq small]
  unfold TOO_BIG
  split_ifs <;> omega

/-- The bytes of a text are not as many as an error says. -/
theorem lengthAsInt_bytes_ne {text bytes : List (BitVec 8)} (spells : Spells text bytes)
    (small : text.length < 2 ^ 32) :
    lengthAsInt bytes.length ≠ BAD_INPUT ∧ lengthAsInt bytes.length ≠ TOO_BIG := by
  have enough := spells.2.enough
  rw [numbers, List.length_map, List.length_map] at enough
  rw [lengthAsInt_eq (by omega)]
  unfold BAD_INPUT TOO_BIG
  split_ifs <;> omega

/-! ## The two together -/

/-- `Base32_encode` of the bytes is the text, in some buffer that has room for it. -/
def Encodes (bytes text : List (BitVec 8)) : Prop :=
  ∃ (output input after : Buffer) (value : ℤ), input.bytes = bytes ∧
    encode output input = .ok (value, after) ∧ value ≠ TOO_BIG ∧
    after.bytes.take (lengthOf value) = text

/-- `Base32_decode` returns a length. -/
def Accepts (output text : Buffer) (value : ℤ) (after : Buffer) : Prop :=
  decode output text = .ok (value, after) ∧ value ≠ BAD_INPUT ∧ value ≠ TOO_BIG

theorem take_written {digits : List ℕ} (output : Buffer) :
    (written digits output).take digits.length = digits.map kChar := by
  have length : (digits.map kChar).length = digits.length := List.length_map kChar
  rw [written, ← length, List.take_left]

/-- What `Base32_encode` writes, if it does not say that it has no room -/
theorem encode_cases {output input after : Buffer} {value : ℤ}
    (runs : encode output input = .ok (value, after)) (fits : value ≠ TOO_BIG) :
    ∃ digits, Packs 8 5 (numbers input.bytes) digits ∧ digits.length ≤ output.length ∧
      value = lengthAsInt digits.length ∧ after.bytes.take (lengthOf value) = digits.map kChar := by
  rcases Packs.exists_target (b := 5) (by decide) (by decide) (numbers_lt input.bytes) with
    ⟨digits, packs⟩
  rcases encode_eq output _ packs with ⟨filled, ⟨room, again, bytes⟩ | ⟨short, again⟩⟩
  · have small := output.length_lt
    rw [runs, Except.ok.injEq, Prod.mk.injEq] at again
    rcases again with ⟨rfl, rfl⟩
    refine ⟨digits, packs, room, rfl, ?_⟩
    rw [lengthOf_lengthAsInt (lt_of_le_of_lt room small), bytes, take_written]
  · rw [runs, Except.ok.injEq, Prod.mk.injEq] at again
    exact absurd again.1 fits

theorem encodes_iff {bytes text : List (BitVec 8)} :
    Encodes bytes text ↔ ∃ digits, Packs 8 5 (numbers bytes) digits ∧
      digits.length < 2 ^ 32 ∧ digits.map kChar = text := by
  constructor
  · rintro ⟨output, input, after, value, rfl, runs, fits, rfl⟩
    rcases encode_cases runs fits with ⟨digits, packs, room, -, taken⟩
    exact ⟨digits, packs, lt_of_le_of_lt room output.length_lt, taken.symm⟩
  · rintro ⟨digits, packs, small, rfl⟩
    have enough := packs.enough
    rw [numbers, List.length_map] at enough
    have length : (Buffer.zeros (BitVec.ofNat 32 digits.length)).length = digits.length := by
      rw [Buffer.length_zeros, BitVec.toNat_ofNat, Nat.mod_eq_of_lt small]
    rcases encode_eq (.zeros (BitVec.ofNat 32 digits.length)) ⟨bytes, by omega⟩ packs
      with ⟨after, ⟨room, runs, filled⟩ | ⟨short, -⟩⟩
    · refine ⟨_, _, after, _, rfl, runs, lengthAsInt_digits_ne packs small, ?_⟩
      rw [lengthOf_lengthAsInt small, filled, take_written]
    · omega

/-- A text of digits is the text of the bytes that it spells, but for the case of its letters. -/
theorem spells_iff_encodes {text bytes : List (BitVec 8)} (small : text.length < 2 ^ 32) :
    Spells text bytes ↔ Encodes bytes (text.map toLower) := by
  rw [encodes_iff]
  constructor
  · rintro ⟨valid, packs⟩
    refine ⟨_, packs, by rwa [List.length_map], ?_⟩
    rw [List.map_map]
    exact List.map_congr_left fun character mem => kChar_numForAscii (valid character mem)
  · rintro ⟨digits, packs, -, same⟩
    have digit (number : ℕ) (mem : number ∈ digits) := isDigit_kChar (packs.target_lt number mem)
    constructor
    · intro character mem
      have lower := List.mem_map_of_mem (f := toLower) mem
      rw [← same] at lower
      rcases List.mem_map.mp lower with ⟨number, mem, char⟩
      rw [← (isDigit_toLower character).1, ← char]
      exact (digit number mem).1
    · have values : text.map numForAscii = digits := by
        calc text.map numForAscii = (text.map toLower).map numForAscii := by
              rw [List.map_map]
              exact List.map_congr_left fun character _ => (isDigit_toLower character).2.symm
          _ = digits.map (numForAscii ∘ kChar) := by rw [← same, List.map_map]
          _ = digits.map id := List.map_congr_left fun number mem => (digit number mem).2.1
          _ = digits := List.map_id digits
      rwa [values]

/-- What `Base32_decode` makes of the digits of bytes -/
theorem decode_of_spells {text : Buffer} {bytes : List (BitVec 8)} (output : Buffer)
    (spells : Spells text.bytes bytes) :
    ∃ after, (bytes.length ≤ output.length ∧
        decode output text = .ok (lengthAsInt bytes.length, after) ∧
        after.bytes = bytes ++ output.bytes.drop bytes.length) ∨
      (output.length < bytes.length ∧ decode output text = .ok (TOO_BIG, after)) := by
  rcases decode_eq output text with ⟨value, after, runs, accepted | bad | tooBig⟩
  · rcases accepted with ⟨source, again, fits, rfl, filled⟩
    obtain rfl : source = bytes :=
      numbers_injective (again.2.source_eq spells.2 (by decide) (by decide))
    exact ⟨after, .inl ⟨fits, runs, filled⟩⟩
  · exact absurd ⟨bytes, spells⟩ bad.2
  · rcases tooBig with ⟨rfl, short⟩
    have tight := spells.2.tight
    rw [numbers, List.length_map, List.length_map] at tight
    change 8 * output.length + 8 ≤ 5 * text.bytes.length at short
    exact ⟨after, .inr ⟨by omega, runs⟩⟩

/-- What is accepted is the digits of the bytes that are written. -/
theorem spells_of_accepts {output text after : Buffer} {value : ℤ}
    (accepts : Accepts output text value after) :
    ∃ bytes, Spells text.bytes bytes ∧ bytes.length ≤ output.length ∧
      after.bytes.take (lengthOf value) = bytes := by
  rcases accepts with ⟨runs, good, fits⟩
  rcases decode_eq output text with ⟨returned, left, again, accepted | bad | tooBig⟩ <;>
    rw [runs, Except.ok.injEq, Prod.mk.injEq] at again <;> rcases again with ⟨rfl, rfl⟩
  · rcases accepted with ⟨bytes, spells, room, rfl, filled⟩
    have small := output.length_lt
    refine ⟨bytes, spells, room, ?_⟩
    rw [lengthOf_lengthAsInt (lt_of_le_of_lt room small), filled, List.take_left]
  · exact absurd bad.1 good
  · exact absurd tooBig.1 fits

section Results

variable {output text input after : Buffer} {value : ℤ}

/-- What is encoded can be decoded. -/
theorem decode_of_encode (runs : encode text input = .ok (value, after)) (fits : value ≠ TOO_BIG)
    (room : input.length ≤ output.length) :
    ∃ decoded, decode output (after.take (lengthOf value)) =
        .ok (lengthAsInt input.length, decoded) ∧
      decoded.bytes.take input.length = input.bytes := by
  rcases encode_cases runs fits with ⟨digits, packs, small, -, taken⟩
  have spells : Spells (after.take (lengthOf value)).bytes input.bytes := by
    apply (spells_iff_encodes (after.take (lengthOf value)).length_lt).mpr
    refine encodes_iff.mpr ⟨digits, packs, lt_of_le_of_lt small text.length_lt, ?_⟩
    change _ = (after.bytes.take (lengthOf value)).map toLower
    rw [taken, List.map_map]
    exact List.map_congr_left fun number mem =>
      (isDigit_kChar (packs.target_lt number mem)).2.2.symm
  rcases decode_of_spells output spells with ⟨decoded, ⟨-, runs, filled⟩ | ⟨short, -⟩⟩
  · refine ⟨decoded, runs, ?_⟩
    rw [filled]
    exact List.take_left
  · exact absurd room (not_le.mpr short)

theorem exists_accepts_iff : (∃ value after, Accepts output text value after) ↔
    ∃ bytes, Encodes bytes (text.bytes.map toLower) ∧ bytes.length ≤ output.length := by
  constructor
  · rintro ⟨value, after, accepts⟩
    rcases spells_of_accepts accepts with ⟨bytes, spells, room, -⟩
    exact ⟨bytes, (spells_iff_encodes text.length_lt).mp spells, room⟩
  · rintro ⟨bytes, encodes, room⟩
    have spells := (spells_iff_encodes text.length_lt).mpr encodes
    rcases decode_of_spells output spells with ⟨after, ⟨-, runs, -⟩ | ⟨short, -⟩⟩
    · exact ⟨_, after, runs, lengthAsInt_bytes_ne spells text.length_lt⟩
    · exact absurd room (not_le.mpr short)

/-- What is decoded can be encoded. -/
theorem encodes_of_accepts (accepts : Accepts output text value after) :
    Encodes (after.bytes.take (lengthOf value)) (text.bytes.map toLower) := by
  rcases spells_of_accepts accepts with ⟨bytes, spells, -, written⟩
  rw [written]
  exact (spells_iff_encodes text.length_lt).mp spells

theorem encode_tooBig_iff (output input : Buffer) :
    ∃ value after, encode output input = .ok (value, after) ∧
      (value = TOO_BIG ↔ output.length < (8 * input.length + 4) / 5) := by
  rcases Packs.exists_target (b := 5) (by decide) (by decide) (numbers_lt input.bytes) with
    ⟨digits, packs⟩
  have enough := packs.enough
  have tight := packs.tight
  rw [numbers, List.length_map] at enough tight
  have count : (8 * input.length + 4) / 5 = digits.length := by
    rw [Buffer.length]
    omega
  rw [count]
  rcases encode_eq output _ packs with ⟨after, ⟨room, runs, -⟩ | ⟨short, runs⟩⟩
  · refine ⟨_, after, runs, iff_of_false ?_ (not_lt.mpr room)⟩
    exact lengthAsInt_digits_ne packs (lt_of_le_of_lt room output.length_lt)
  · exact ⟨_, after, runs, iff_of_true rfl short⟩

theorem decode_tooBig_iff (output text : Buffer) :
    ∃ value after, decode output text = .ok (value, after) ∧
      ∀ bytes, Encodes bytes (text.bytes.map toLower) →
        (value = TOO_BIG ↔ output.length < bytes.length) := by
  rcases decode_eq output text with ⟨value, after, runs, -⟩
  refine ⟨value, after, runs, ?_⟩
  intro bytes encodes
  have spells := (spells_iff_encodes text.length_lt).mpr encodes
  rcases decode_of_spells output spells with ⟨left, ⟨room, again, -⟩ | ⟨short, again⟩⟩ <;>
    rw [runs, Except.ok.injEq, Prod.mk.injEq] at again <;> rw [again.1]
  · exact iff_of_false (lengthAsInt_bytes_ne spells text.length_lt).2 (not_lt.mpr room)
  · exact iff_of_true rfl short

end Results

/--
The codec of `Base32.h`: what is encoded is decoded; what is accepted is what is encoded, but for
the case of the letters; `TOO_BIG` is returned when there is no room; and nothing is written
outside of the buffers.
-/
theorem codec_exact :
    (∀ text input output after : Buffer, ∀ value, encode text input = .ok (value, after) →
      value ≠ TOO_BIG → input.length ≤ output.length →
      ∃ decoded, decode output (after.take (lengthOf value)) =
          .ok (lengthAsInt input.length, decoded) ∧
        decoded.bytes.take input.length = input.bytes) ∧
    (∀ output text : Buffer, (∃ value after, Accepts output text value after) ↔
      ∃ bytes, Encodes bytes (text.bytes.map toLower) ∧ bytes.length ≤ output.length) ∧
    (∀ output text after : Buffer, ∀ value, Accepts output text value after →
      Encodes (after.bytes.take (lengthOf value)) (text.bytes.map toLower)) ∧
    (∀ output input : Buffer, ∃ value after, encode output input = .ok (value, after) ∧
      (value = TOO_BIG ↔ output.length < (8 * input.length + 4) / 5)) ∧
    (∀ output text : Buffer, ∃ value after, decode output text = .ok (value, after) ∧
      ∀ bytes, Encodes bytes (text.bytes.map toLower) →
        (value = TOO_BIG ↔ output.length < bytes.length)) := by
  refine ⟨?_, ?_, ?_, encode_tooBig_iff, decode_tooBig_iff⟩
  · intro text input output after value runs fits room
    exact decode_of_encode runs fits room
  · intro output text
    exact exists_accepts_iff
  · intro output text after value accepts
    exact encodes_of_accepts accepts

end Cjdns.Base32
