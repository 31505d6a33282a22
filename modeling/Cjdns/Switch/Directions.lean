import Cjdns.Switch.LabelSplicer

/-!
# Directions

What a label means: the turns that a packet takes, each an interface to leave a switch through, in
one of the widths of the scheme. Splicing puts directions behind directions (`splice_label`), and
`getLabelFor` writes the first turn in the width of the asker's (`getLabelFor_label`).
-/

namespace Cjdns

open NumberCompress (INTERFACES)

/-- An interface to leave through, in a width that it can be written in -/
structure Turn where
  exit : Fin INTERFACES
  bits : ℕ
  width : NumberCompress.IsWidth bits
  fits : NumberCompress.bitsUsedForNumber exit ≤ bits
  peer : exit ≠ 1

namespace Turn

/-- A turn in the least width -/
def narrow (exit : Fin INTERFACES) (peer : exit ≠ 1) : Turn where
  exit := exit
  bits := NumberCompress.bitsUsedForNumber exit
  width := NumberCompress.isWidth_bitsUsedForNumber exit
  fits := le_rfl
  peer := peer

/-- The turn in at least the width of another -/
def widen (turn other : Turn) : Turn where
  exit := turn.exit
  bits := max turn.bits other.bits
  width := by
    rcases max_choice turn.bits other.bits with same | same
    · rw [same]
      exact turn.width
    · rw [same]
      exact other.width
  fits := le_trans turn.fits (le_max_left _ _)
  peer := turn.peer

/-- The number that the turn is written as -/
def code (turn : Turn) : ℕ :=
  (NumberCompress.getCompressed turn.exit turn.bits).toNat

variable (turn : Turn)

theorem code_lt : turn.code < 2 ^ turn.bits :=
  NumberCompress.toNat_getCompressed_lt turn.width turn.exit.isLt turn.fits

theorem four_le_bits : 4 ≤ turn.bits := by
  rcases turn.width with width | width | width <;> omega

theorem bits_le_ten : turn.bits ≤ 10 := by
  rcases turn.width with width | width | width <;> omega

theorem exit_ne_one : (turn.exit : ℕ) ≠ 1 :=
  fun one => turn.peer (Fin.ext one)

end Turn

/-- The turns to take, the first one first -/
abbrev Directions := List Turn

namespace Directions

/-- How many bits the turns take -/
def bits : Directions → ℕ
  | [] => 0
  | turn :: rest => turn.bits + bits rest

/-- The turns as a number: the first one in the lowest bits, and the terminator above the last -/
def spell : Directions → ℕ
  | [] => 1
  | turn :: rest => spell rest * 2 ^ turn.bits + turn.code

/-- The label for the turns -/
def label (directions : Directions) : BitVec 64 :=
  BitVec.ofNat 64 (spell directions)

variable {turn other : Turn} {directions further rest : Directions}

@[simp]
theorem bits_append (directions further : Directions) :
    bits (directions ++ further) = bits directions + bits further := by
  induction directions with
  | nil => simp [bits]
  | cons turn rest ih => rw [List.cons_append, bits, bits, ih, Nat.add_assoc]

theorem two_pow_bits_le_spell (directions : Directions) :
    2 ^ bits directions ≤ spell directions := by
  induction directions with
  | nil => exact le_rfl
  | cons turn rest ih =>
      calc 2 ^ (turn.bits + bits rest)
          = 2 ^ bits rest * 2 ^ turn.bits := by rw [Nat.pow_add, Nat.mul_comm]
        _ ≤ spell rest * 2 ^ turn.bits := Nat.mul_le_mul_right _ ih
        _ ≤ spell rest * 2 ^ turn.bits + turn.code := Nat.le_add_right _ _

theorem spell_lt (directions : Directions) : spell directions < 2 ^ (bits directions + 1) := by
  induction directions with
  | nil => exact Nat.one_lt_two
  | cons turn rest ih =>
      have code := turn.code_lt
      calc spell rest * 2 ^ turn.bits + turn.code
          < (spell rest + 1) * 2 ^ turn.bits := by rw [Nat.add_mul]; omega
        _ ≤ 2 ^ (bits rest + 1) * 2 ^ turn.bits := Nat.mul_le_mul_right _ ih
        _ = 2 ^ (bits (turn :: rest) + 1) := by rw [← Nat.pow_add, bits]; congr 1; omega

/-- Below the terminator of the first directions stand the first directions, above it the others. -/
theorem spell_append (directions further : Directions) :
    spell (directions ++ further) =
      spell further * 2 ^ bits directions + spell directions % 2 ^ bits directions := by
  induction directions with
  | nil => simp [bits, spell]
  | cons turn rest ih =>
      have code := turn.code_lt
      have low : spell (turn :: rest) % 2 ^ bits (turn :: rest) =
          spell rest % 2 ^ bits rest * 2 ^ turn.bits + turn.code := by
        rw [spell, bits, Nat.pow_add, Nat.mod_mul, Nat.mul_comm (spell rest), Nat.mul_add_mod,
          Nat.mod_eq_of_lt code, Nat.mul_add_div (Nat.two_pow_pos _), Nat.div_eq_of_lt code,
          Nat.add_zero]
        ring
      rw [List.cons_append, spell, ih, low, bits, Nat.pow_add]
      ring

/-- What is left above the first directions -/
theorem spell_append_div (directions further : Directions) :
    spell (directions ++ further) / 2 ^ bits directions = spell further := by
  have below := Nat.mod_lt (spell directions) (Nat.two_pow_pos (bits directions))
  rw [spell_append, Nat.mul_comm, Nat.mul_add_div (Nat.two_pow_pos _), Nat.div_eq_of_lt below,
    Nat.add_zero]

/-! ## Labels -/

theorem toNat_label (room : bits directions < 64) : (label directions).toNat = spell directions := by
  rw [label, BitVec.toNat_ofNat, Nat.mod_eq_of_lt]
  exact lt_of_lt_of_le (spell_lt directions) (Nat.pow_le_pow_right (by omega) room)

theorem log2x64_label (room : bits directions < 64) :
    Bits.log2x64 (label directions) = bits directions := by
  apply LabelSplicer.log2x64_eq_of_bounds <;> rw [toNat_label room]
  · exact two_pow_bits_le_spell directions
  · exact spell_lt directions

theorem label_ne_zero (room : bits directions < 64) : label directions ≠ 0 := by
  intro zero
  have value := toNat_label room
  have positive := lt_of_lt_of_le (Nat.two_pow_pos _) (two_pow_bits_le_spell directions)
  rw [zero] at value
  simp at value
  omega

/-- The terminator stands above the turns. -/
theorem getLsbD_label (room : bits directions < 64) :
    (label directions).getLsbD (bits directions) = true := by
  have one := spell_append_div directions []
  rw [List.append_nil] at one
  rw [← BitVec.testBit_toNat, toNat_label room, Nat.testBit_eq_decide_div_mod_eq, one, spell]
  rfl

/-- A label is put together from the last turn to the first, even where there is no room. -/
theorem label_cons (turn : Turn) (rest : Directions) :
    label (turn :: rest) =
      (label rest <<< turn.bits) ||| NumberCompress.getCompressed turn.exit turn.bits := by
  have narrow := turn.bits_le_ten
  have code := turn.code_lt
  have split : 2 ^ 64 = 2 ^ turn.bits * 2 ^ (64 - turn.bits) := by
    rw [← Nat.pow_add, Nat.add_sub_cancel' (by omega)]
  apply BitVec.eq_of_toNat_eq
  rw [Word.toNat_shiftLeft_or (by omega) code, label, label, BitVec.toNat_ofNat,
    BitVec.toNat_ofNat, Nat.mod_mod_of_dvd _ (Nat.pow_dvd_pow 2 (Nat.sub_le _ _)), split, spell,
    Nat.mod_mul, Nat.mul_comm (spell rest), Nat.mul_add_mod, Nat.mod_eq_of_lt code,
    Nat.mul_add_div (Nat.two_pow_pos _), Nat.div_eq_of_lt code, Nat.add_zero, Turn.code]
  ring

/-- A label starts with the first turn, even where the others do not have room. -/
theorem low_label (turn : Turn) (rest : Directions) :
    Word.low turn.bits (label (turn :: rest)) =
      NumberCompress.getCompressed turn.exit turn.bits := by
  apply BitVec.eq_of_toNat_eq
  have narrow := turn.bits_le_ten
  rw [Word.toNat_low, label, BitVec.toNat_ofNat,
    Nat.mod_mod_of_dvd _ (Nat.pow_dvd_pow 2 (by omega)), spell, Nat.mul_comm, Nat.mul_add_mod]
  exact Nat.mod_eq_of_lt turn.code_lt

/-- The first turn is read off a label. -/
theorem decode_label (turn : Turn) (rest : Directions) :
    NumberCompress.bitsUsedForLabel (label (turn :: rest)) = turn.bits ∧
      NumberCompress.getDecompressed (label (turn :: rest)) turn.bits = turn.exit :=
  NumberCompress.decode_of_low_eq turn.width turn.exit.isLt turn.fits turn.exit_ne_one
    (low_label turn rest)

/-- Splicing puts directions behind directions. -/
theorem splice_label (short : bits directions + bits further ≤ 60) :
    LabelSplicer.splice (label further) (label directions) = label (directions ++ further) := by
  have room : bits directions < 64 := by omega
  have roomFurther : bits further < 64 := by omega
  apply BitVec.eq_of_toNat_eq
  rw [LabelSplicer.toNat_splice (label_ne_zero room) (by
      rw [log2x64_label room, log2x64_label roomFurther]
      omega), log2x64_label room, toNat_label room, toNat_label roomFurther,
    toNat_label (by rw [bits_append]; omega), spell_append]

/-- Directions that are too long together are not spliced. -/
theorem splice_label_cases (room : bits directions < 64) (roomFurther : bits further < 64) :
    LabelSplicer.splice (label further) (label directions) = BitVec.allOnes 64 ∨
      bits directions + bits further ≤ 60 ∧
        LabelSplicer.splice (label further) (label directions) =
          label (directions ++ further) := by
  by_cases short : bits directions + bits further ≤ 60
  · exact .inr ⟨short, splice_label short⟩
  · refine .inl (LabelSplicer.splice_of_too_big ?_)
    rw [log2x64_label room, log2x64_label roomFurther]
    omega

/-- The first turn is written in the width of the asker's first turn, if there is room. -/
theorem getLabelFor_label (room : bits (turn.widen other :: rest) < 64) :
    LabelSplicer.getLabelFor (label (turn :: rest)) (label (other :: further)) =
      label (turn.widen other :: rest) := by
  have wider : turn.bits ≤ (turn.widen other).bits := le_max_left _ _
  have narrow := other.bits_le_ten
  have mine := decode_label turn rest
  have asker := decode_label other further
  have roomMine : bits (turn :: rest) < 64 := by
    rw [bits] at room ⊢
    omega
  by_cases enough : other.bits ≤ turn.bits
  · have same : turn.widen other = turn := by
      obtain ⟨exit, bits, width, fits, peer⟩ := turn
      simp only [Turn.widen, Turn.mk.injEq, true_and]
      exact max_eq_left enough
    rw [LabelSplicer.getLabelFor, mine.1, asker.1, if_pos enough, same]
  · have askers : (turn.widen other).bits = other.bits := max_eq_right (by omega)
    have small : spell rest < 2 ^ (64 - other.bits) := by
      rw [bits, askers] at room
      exact lt_of_lt_of_le (spell_lt rest) (Nat.pow_le_pow_right (by omega) (by omega))
    have quotient : spell (turn :: rest) / 2 ^ turn.bits = spell rest := by
      rw [spell, Nat.mul_comm, Nat.mul_add_div (Nat.two_pow_pos _),
        Nat.div_eq_of_lt turn.code_lt, Nat.add_zero]
    apply BitVec.eq_of_toNat_eq
    rw [LabelSplicer.toNat_getLabelFor (by rw [mine.1, asker.1]; omega), mine.1, asker.1, mine.2,
      toNat_label roomMine, toNat_label room, quotient, Nat.mod_eq_of_lt small, spell, askers]
    rw [Turn.code, askers]
    rfl

end Directions

end Cjdns
