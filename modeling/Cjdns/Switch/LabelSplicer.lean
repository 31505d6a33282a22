import Cjdns.Switch.NumberCompress
import Cjdns.Util.Bits

/-!
# Splicing labels

A label is a string of discriminators with a terminating 1 bit on top. Splicing
puts one label on top of another, at the place of its terminator
(`toNat_splice`), and `getLabelFor` rewrites the first discriminator of a label
for an asker whose own discriminator is wider.
-/

namespace Cjdns.LabelSplicer

/-- `LabelSplicer_splice` -/
def splice (goHere viaHere : BitVec 64) : BitVec 64 :=
  let log2ViaHere := Bits.log2x64 viaHere
  if Bits.log2x64 goHere + log2ViaHere > 60 then
    -- too big, can't splice
    BitVec.allOnes 64
  else ((goHere ^^^ 1) <<< log2ViaHere) ^^^ viaHere

/-- `LabelSplicer_getLabelFor` -/
def getLabelFor (target whoIsAsking : BitVec 64) : BitVec 64 :=
  let targetBits := NumberCompress.bitsUsedForLabel target
  let whoIsAskingBits := NumberCompress.bitsUsedForLabel whoIsAsking
  if targetBits ≥ whoIsAskingBits then target
  else
    let targetIfaceNum := NumberCompress.getDecompressed target targetBits
    ((target &&& (BitVec.allOnes 64 <<< targetBits)) <<< (whoIsAskingBits - targetBits)) |||
      NumberCompress.getCompressed targetIfaceNum whoIsAskingBits

/-- `LabelSplicer_isOneHop` -/
def isOneHop (label : BitVec 64) : Bool :=
  NumberCompress.bitsUsedForLabel label = Bits.log2x64 label

/-- `LabelSplicer_routesThrough`; the shift takes its count modulo the width of the word. -/
def routesThrough (destination midPath : BitVec 64) : Bool :=
  if midPath > destination then false
  else
    let mask := BitVec.allOnes 64 >>> ((64 - Bits.log2x64 midPath) % 64)
    destination &&& mask == midPath &&& mask

/-! ## Routes through routes -/

theorem routesThrough_refl (path : BitVec 64) : routesThrough path path = true := by
  simp [routesThrough]

/-- The mask of a short path has the lowest bits, that of the paths 0 and 1 all of them. -/
theorem routesThrough_iff (destination midPath : BitVec 64) :
    routesThrough destination midPath = true ↔ midPath ≤ destination ∧
      ∀ index, (64 - Bits.log2x64 midPath) % 64 + index < 64 →
        destination.getLsbD index = midPath.getLsbD index := by
  unfold routesThrough
  split_ifs with above
  · have not_le : ¬ midPath ≤ destination := BitVec.not_le.mpr above
    simp [not_le]
  · rw [beq_iff_eq, and_iff_right (BitVec.not_lt.mp above)]
    constructor
    · intro same index inside
      have bit := congrArg (·.getLsbD index) same
      simpa only [BitVec.getLsbD_and, BitVec.getLsbD_ushiftRight, BitVec.getLsbD_allOnes, inside,
        decide_true, Bool.and_true] using bit
    · intro same
      apply BitVec.eq_of_getLsbD_eq
      intro index _
      simp only [BitVec.getLsbD_and, BitVec.getLsbD_ushiftRight, BitVec.getLsbD_allOnes]
      by_cases inside : (64 - Bits.log2x64 midPath) % 64 + index < 64
      · rw [same index inside]
      · simp only [inside, decide_false, Bool.and_false]

theorem routesThrough_trans {destination midPath first : BitVec 64}
    (far : routesThrough destination midPath = true) (near : routesThrough midPath first = true) :
    routesThrough destination first = true := by
  rw [routesThrough_iff] at far near ⊢
  refine ⟨BitVec.le_trans near.1 far.1, fun index inside => ?_⟩
  have ordered : Bits.log2x64 first ≤ Bits.log2x64 midPath := by
    rw [Bits.log2x64_eq, Bits.log2x64_eq, Nat.log2_eq_log_two, Nat.log2_eq_log_two]
    exact Nat.log_mono_right (BitVec.le_def.mp near.1)
  have bound := Bits.log2x64_le midPath
  -- where the first mask is that of all bits, the two shorter paths are the same
  by_cases narrow : Bits.log2x64 first = 0
  · have whole : midPath = first := by
      apply BitVec.eq_of_getLsbD_eq
      intro position below
      exact near.2 position (by rw [narrow]; omega)
    rw [← whole] at inside ⊢
    exact far.2 index inside
  · rw [far.2 index (by omega), near.2 index inside]

/-! ## Splicing -/

theorem log2x64_eq_of_bounds {label : BitVec 64} {width : ℕ} (lower : 2 ^ width ≤ label.toNat)
    (upper : label.toNat < 2 ^ (width + 1)) : Bits.log2x64 label = width := by
  have nonzero : label ≠ 0 := by
    rintro rfl
    have := Nat.two_pow_pos width
    simp at lower
  have below := (Bits.log2x64_lt nonzero).mpr upper
  have above : ¬ Bits.log2x64 label < width := fun less =>
    absurd ((Bits.log2x64_lt nonzero).mp less) (by omega)
  omega

/-- A label above the terminator of another: the bits of the one follow the bits of the other. -/
theorem toNat_splice {goHere viaHere : BitVec 64} (via : viaHere ≠ 0)
    (fits : Bits.log2x64 goHere + Bits.log2x64 viaHere ≤ 60) :
    (splice goHere viaHere).toNat =
      goHere.toNat * 2 ^ Bits.log2x64 viaHere + viaHere.toNat % 2 ^ Bits.log2x64 viaHere := by
  have viaLower := Bits.two_pow_log2x64_le via
  have viaUpper := Bits.toNat_lt_two_pow_log2x64 viaHere
  have goUpper := Bits.toNat_lt_two_pow_log2x64 goHere
  rw [splice, if_neg (by omega)]
  generalize Bits.log2x64 viaHere = log2ViaHere at *
  have size : (goHere ^^^ 1).toNat * 2 ^ log2ViaHere < 2 ^ 64 := by
    have xorUpper : (goHere ^^^ 1).toNat < 2 ^ (Bits.log2x64 goHere + 1) := by
      rw [BitVec.toNat_xor]
      exact Nat.xor_lt_two_pow goUpper (Nat.one_lt_two_pow (by omega))
    calc (goHere ^^^ 1).toNat * 2 ^ log2ViaHere
        < 2 ^ (Bits.log2x64 goHere + 1) * 2 ^ log2ViaHere :=
          Nat.mul_lt_mul_of_pos_right xorUpper (Nat.two_pow_pos _)
      _ = 2 ^ (Bits.log2x64 goHere + 1 + log2ViaHere) := (Nat.pow_add ..).symm
      _ ≤ 2 ^ 64 := Nat.pow_le_pow_right (by omega) (by omega)
  have high : viaHere.toNat / 2 ^ log2ViaHere = 1 := by
    rw [Nat.pow_succ] at viaUpper
    apply Nat.div_eq_of_lt_le <;> omega
  rw [BitVec.toNat_xor, BitVec.toNat_shiftLeft, Nat.shiftLeft_eq, Nat.mod_eq_of_lt size]
  rw [← Nat.div_add_mod' ((goHere ^^^ 1).toNat * 2 ^ log2ViaHere ^^^ viaHere.toNat)
    (2 ^ log2ViaHere), Nat.xor_div_two_pow, Nat.xor_mod_two_pow, Nat.mul_mod_left,
    Nat.mul_div_left _ (Nat.two_pow_pos _), high, Nat.zero_xor, BitVec.toNat_xor]
  rw [show (1 : BitVec 64).toNat = 1 from rfl, Nat.xor_assoc, Nat.xor_self, Nat.xor_zero]

theorem log2x64_splice {goHere viaHere : BitVec 64} (go : goHere ≠ 0) (via : viaHere ≠ 0)
    (fits : Bits.log2x64 goHere + Bits.log2x64 viaHere ≤ 60) :
    Bits.log2x64 (splice goHere viaHere) = Bits.log2x64 goHere + Bits.log2x64 viaHere := by
  have goLower := Bits.two_pow_log2x64_le go
  have goUpper := Bits.toNat_lt_two_pow_log2x64 goHere
  have rest := Nat.mod_lt viaHere.toNat (Nat.two_pow_pos (Bits.log2x64 viaHere))
  apply log2x64_eq_of_bounds <;> rw [toNat_splice via fits]
  · rw [Nat.pow_add]
    exact le_trans (Nat.mul_le_mul_right _ goLower) (Nat.le_add_right _ _)
  · calc goHere.toNat * 2 ^ Bits.log2x64 viaHere + viaHere.toNat % 2 ^ Bits.log2x64 viaHere
        < (goHere.toNat + 1) * 2 ^ Bits.log2x64 viaHere := by rw [Nat.add_mul]; omega
      _ ≤ 2 ^ (Bits.log2x64 goHere + 1) * 2 ^ Bits.log2x64 viaHere :=
          Nat.mul_le_mul_right _ goUpper
      _ = 2 ^ (Bits.log2x64 goHere + Bits.log2x64 viaHere + 1) := by
          rw [← Nat.pow_add]
          congr 1
          omega

theorem splice_of_too_big {goHere viaHere : BitVec 64}
    (tooBig : 60 < Bits.log2x64 goHere + Bits.log2x64 viaHere) :
    splice goHere viaHere = BitVec.allOnes 64 := by
  rw [splice, if_pos tooBig]

theorem splice_ne_zero {goHere viaHere : BitVec 64} (go : goHere ≠ 0) (via : viaHere ≠ 0) :
    splice goHere viaHere ≠ 0 := by
  by_cases fits : Bits.log2x64 goHere + Bits.log2x64 viaHere ≤ 60
  · intro zero
    have value := toNat_splice via fits
    rw [zero] at value
    have positive : 0 < goHere.toNat * 2 ^ Bits.log2x64 viaHere := by
      have : goHere.toNat ≠ 0 := by simpa [← BitVec.toNat_inj] using go
      positivity
    simp at value
    omega
  · rw [splice_of_too_big (by omega)]
    decide

theorem log2x64_allOnes : Bits.log2x64 (BitVec.allOnes 64) = 63 := by
  decide

/-- The length of a splice, whether or not it is too big. -/
theorem fits_splice_iff {first second third : BitVec 64} (two : second ≠ 0)
    (three : third ≠ 0) :
    Bits.log2x64 first + Bits.log2x64 (splice second third) ≤ 60 ↔
      Bits.log2x64 first + Bits.log2x64 second + Bits.log2x64 third ≤ 60 := by
  by_cases fits : Bits.log2x64 second + Bits.log2x64 third ≤ 60
  · rw [log2x64_splice two three fits]
    omega
  · rw [splice_of_too_big (by omega), log2x64_allOnes]
    omega

theorem fits_splice_iff' {first second third : BitVec 64} (one : first ≠ 0) (two : second ≠ 0) :
    Bits.log2x64 (splice first second) + Bits.log2x64 third ≤ 60 ↔
      Bits.log2x64 first + Bits.log2x64 second + Bits.log2x64 third ≤ 60 := by
  by_cases fits : Bits.log2x64 first + Bits.log2x64 second ≤ 60
  · rw [log2x64_splice one two fits]
  · rw [splice_of_too_big (by omega), log2x64_allOnes]
    omega

/-- Splicing is associative, with the outcome "too big" included. -/
theorem splice_assoc {first second third : BitVec 64} (one : first ≠ 0) (two : second ≠ 0)
    (three : third ≠ 0) :
    splice first (splice second third) = splice (splice first second) third := by
  by_cases fits : Bits.log2x64 first + Bits.log2x64 second + Bits.log2x64 third ≤ 60
  · have right : Bits.log2x64 second + Bits.log2x64 third ≤ 60 := by omega
    have left : Bits.log2x64 first + Bits.log2x64 second ≤ 60 := by omega
    apply BitVec.eq_of_toNat_eq
    rw [toNat_splice (splice_ne_zero two three) ((fits_splice_iff two three).mpr fits),
      toNat_splice three ((fits_splice_iff' one two).mpr fits),
      log2x64_splice two three right, toNat_splice two left, toNat_splice three right]
    generalize Bits.log2x64 second = middle
    generalize Bits.log2x64 third = lowest
    rw [Nat.add_comm middle, Nat.pow_add, Nat.mod_mul, Nat.add_mul]
    have below := Nat.mod_lt third.toNat (Nat.two_pow_pos lowest)
    have high : (second.toNat * 2 ^ lowest + third.toNat % 2 ^ lowest) / 2 ^ lowest =
        second.toNat := by
      rw [Nat.mul_comm, Nat.mul_add_div (Nat.two_pow_pos _), Nat.div_eq_of_lt below, Nat.add_zero]
    have low : (second.toNat * 2 ^ lowest + third.toNat % 2 ^ lowest) % 2 ^ lowest =
        third.toNat % 2 ^ lowest := by
      rw [Nat.mul_comm, Nat.mul_add_mod, Nat.mod_mod]
    rw [high, low]
    ring
  · have left := (fits_splice_iff' one two).not.mpr fits
    have right := (fits_splice_iff two three).not.mpr fits
    rw [splice_of_too_big (by omega), splice_of_too_big (by omega)]

/-- The label that leads nowhere is neutral, as far as splicing goes at all. -/
theorem splice_one_left {label : BitVec 64} (fits : Bits.log2x64 label ≤ 60) :
    splice 1 label = label := by
  have one : Bits.log2x64 (1 : BitVec 64) = 0 := by decide
  rw [splice, if_neg (by omega)]
  simp

theorem splice_one_right {label : BitVec 64} (fits : Bits.log2x64 label ≤ 60) :
    splice label 1 = label := by
  have one : Bits.log2x64 (1 : BitVec 64) = 0 := by decide
  rw [splice, if_neg (by omega), one, BitVec.shiftLeft_zero, BitVec.xor_assoc, BitVec.xor_self,
    BitVec.xor_zero]

/-! ## The order of paths -/

/-- Where the mask is not that of all bits, it has the bits below the terminator. -/
theorem routesThrough_iff_mod {destination midPath : BitVec 64} (long : Bits.log2x64 midPath ≠ 0) :
    routesThrough destination midPath = true ↔ midPath ≤ destination ∧
      destination.toNat % 2 ^ Bits.log2x64 midPath = midPath.toNat % 2 ^ Bits.log2x64 midPath := by
  have bound := Bits.log2x64_le midPath
  have inside (index : ℕ) :
      (64 - Bits.log2x64 midPath) % 64 + index < 64 ↔ index < Bits.log2x64 midPath := by
    rw [Nat.mod_eq_of_lt (by omega)]
    omega
  rw [routesThrough_iff, ← Word.low_eq_low_iff]
  simp only [inside]
  refine and_congr_right fun _ => ?_
  constructor
  · intro same
    apply BitVec.eq_of_getLsbD_eq
    intro index _
    rw [Word.getLsbD_low, Word.getLsbD_low]
    by_cases below : index < Bits.log2x64 midPath
    · rw [same index below]
    · simp only [below, decide_false, Bool.false_and]
  · intro same index below
    have bit := congrArg (·.getLsbD index) same
    simpa only [Word.getLsbD_low, below, decide_true, Bool.true_and] using bit

/-- A path that lies above the terminator of another -/
theorem exists_splice_iff {destination midPath : BitVec 64} (mid : midPath ≠ 0)
    (short : Bits.log2x64 destination ≤ 60) :
    (∃ goHere, goHere ≠ 0 ∧ splice goHere midPath = destination) ↔ midPath ≤ destination ∧
      destination.toNat % 2 ^ Bits.log2x64 midPath = midPath.toNat % 2 ^ Bits.log2x64 midPath := by
  have lower := Bits.two_pow_log2x64_le mid
  have upper := Bits.toNat_lt_two_pow_log2x64 midPath
  have high : midPath.toNat / 2 ^ Bits.log2x64 midPath = 1 := by
    rw [Nat.pow_succ] at upper
    apply Nat.div_eq_of_lt_le <;> omega
  have parts := Nat.div_add_mod midPath.toNat (2 ^ Bits.log2x64 midPath)
  rw [high, Nat.mul_one] at parts
  constructor
  · rintro ⟨goHere, go, rfl⟩
    have fits : Bits.log2x64 goHere + Bits.log2x64 midPath ≤ 60 := by
      by_contra tooBig
      rw [splice_of_too_big (by omega), log2x64_allOnes] at short
      omega
    have positive : 1 ≤ goHere.toNat :=
      le_trans Nat.one_le_two_pow (Bits.two_pow_log2x64_le go)
    rw [BitVec.le_def, toNat_splice mid fits]
    constructor
    · have := Nat.mul_le_mul_right (2 ^ Bits.log2x64 midPath) positive
      omega
    · rw [Nat.mul_comm, Nat.mul_add_mod, Nat.mod_mod]
  · rintro ⟨below, same⟩
    have dest : destination ≠ 0 := by
      rintro rfl
      exact mid (BitVec.eq_of_toNat_eq (Nat.le_zero.mp (BitVec.le_def.mp below)))
    have whole := Nat.div_add_mod' destination.toNat (2 ^ Bits.log2x64 midPath)
    have value : (destination >>> Bits.log2x64 midPath).toNat =
        destination.toNat / 2 ^ Bits.log2x64 midPath := by
      rw [BitVec.toNat_ushiftRight, Nat.shiftRight_eq_div_pow]
    have positive : 0 < destination.toNat / 2 ^ Bits.log2x64 midPath :=
      Nat.div_pos (le_trans lower (BitVec.le_def.mp below)) (Nat.two_pow_pos _)
    have go : destination >>> Bits.log2x64 midPath ≠ 0 := by
      intro zero
      rw [zero] at value
      exact positive.ne value
    have size : Bits.log2x64 (destination >>> Bits.log2x64 midPath) +
        Bits.log2x64 midPath ≤ 60 := by
      have bound := Bits.two_pow_log2x64_le go
      have small := (Bits.log2x64_lt dest).mp (Nat.lt_succ_of_le short)
      rw [value] at bound
      have : 2 ^ (Bits.log2x64 (destination >>> Bits.log2x64 midPath) + Bits.log2x64 midPath) <
          2 ^ 61 := by
        rw [Nat.pow_add]
        have := Nat.mul_le_mul_right (2 ^ Bits.log2x64 midPath) bound
        omega
      have := (Nat.pow_lt_pow_iff_right (by norm_num)).mp this
      omega
    refine ⟨destination >>> Bits.log2x64 midPath, go, BitVec.eq_of_toNat_eq ?_⟩
    rw [toNat_splice mid size, value, ← same, whole]

/--
What a caller takes `routesThrough` for: the order of the paths by their
prefixes, without a shift by the width of a word.
-/
structure OrdersPaths (destination midPath : BitVec 64) : Prop where
  shift : midPath ≤ destination → 64 - Bits.log2x64 midPath < 64
  prefixes : routesThrough destination midPath = true ↔
    ∃ goHere, goHere ≠ 0 ∧ splice goHere midPath = destination
  refl : routesThrough destination destination = true
  antisymm : routesThrough destination midPath = true →
    routesThrough midPath destination = true → destination = midPath
  trans : ∀ first : BitVec 64, routesThrough destination midPath = true →
    routesThrough midPath first = true → routesThrough destination first = true

/-- `routesThrough` is the order of the paths but for the path of the router itself. -/
theorem ordersPaths_iff {destination midPath : BitVec 64} (dest : destination ≠ 0)
    (mid : midPath ≠ 0) (short : Bits.log2x64 destination ≤ 60) :
    OrdersPaths destination midPath ↔ midPath ≠ 1 := by
  constructor
  · rintro orders rfl
    have least : (1 : BitVec 64) ≤ destination := by
      rw [BitVec.le_def]
      exact le_trans Nat.one_le_two_pow (Bits.two_pow_log2x64_le dest)
    exact absurd (orders.shift least) (by decide)
  · intro other
    have long : Bits.log2x64 midPath ≠ 0 := by
      intro zero
      have lower := Bits.two_pow_log2x64_le mid
      have upper := Bits.toNat_lt_two_pow_log2x64 midPath
      rw [zero] at lower upper
      exact other (BitVec.eq_of_toNat_eq (show midPath.toNat = 1 by omega))
    exact {
      shift := fun _ => by omega
      prefixes := by rw [routesThrough_iff_mod long, exists_splice_iff mid short]
      refl := routesThrough_refl destination
      antisymm := fun far near => BitVec.le_antisymm
        ((routesThrough_iff midPath destination).mp near).1
        ((routesThrough_iff destination midPath).mp far).1
      trans := fun _ far near => routesThrough_trans far near }

theorem ordersPaths_of_two_hops : OrdersPaths 0x115 0x15 :=
  (ordersPaths_iff (by decide) (by decide) (by decide)).mpr (by decide)

/-- Going on to 2 from the router itself gets to 2, and yet 2 does not route through the router. -/
theorem self_is_no_prefix :
    splice 2 1 = 2 ∧ routesThrough 2 1 = false ∧ 64 - Bits.log2x64 1 = 64 ∧ ¬OrdersPaths 2 1 :=
  ⟨by decide, by decide, by decide, fun orders => absurd (orders.shift (by decide)) (by decide)⟩

/-! ## Labels for an asker -/

/--
What a label is good for when it is handed to an asker in place of a target: it
starts with the target's interface, in at least the asker's width, and goes on
as the target does.
-/
structure Usable (target whoIsAsking answer : BitVec 64) : Prop where
  iface : NumberCompress.getDecompressed answer (NumberCompress.bitsUsedForLabel answer) =
    NumberCompress.getDecompressed target (NumberCompress.bitsUsedForLabel target)
  width : NumberCompress.bitsUsedForLabel whoIsAsking ≤ NumberCompress.bitsUsedForLabel answer
  rest : answer >>> NumberCompress.bitsUsedForLabel answer =
    target >>> NumberCompress.bitsUsedForLabel target

/-- Rewriting a label whose first discriminator is too narrow. -/
theorem toNat_getLabelFor {target whoIsAsking : BitVec 64}
    (narrower : NumberCompress.bitsUsedForLabel target <
      NumberCompress.bitsUsedForLabel whoIsAsking) :
    (getLabelFor target whoIsAsking).toNat =
      target.toNat / 2 ^ NumberCompress.bitsUsedForLabel target %
          2 ^ (64 - NumberCompress.bitsUsedForLabel whoIsAsking) *
          2 ^ NumberCompress.bitsUsedForLabel whoIsAsking +
        (NumberCompress.getCompressed
          (NumberCompress.getDecompressed target (NumberCompress.bitsUsedForLabel target))
          (NumberCompress.bitsUsedForLabel whoIsAsking)).toNat := by
  have askerWidth := NumberCompress.isWidth_bitsUsedForLabel whoIsAsking
  have fits := NumberCompress.bitsUsedForNumber_getDecompressed_le target
    (NumberCompress.isWidth_bitsUsedForLabel target)
  have small := NumberCompress.toNat_getCompressed_lt askerWidth
    (NumberCompress.getDecompressed_lt target _) (le_trans fits narrower.le)
  have bound : NumberCompress.bitsUsedForLabel whoIsAsking ≤ 64 := by
    rcases askerWidth with width | width | width <;> omega
  simp only [getLabelFor, ge_iff_le, not_le.mpr narrower, if_false]
  rw [Word.and_allOnes_shiftLeft, ← BitVec.shiftLeft_add, Nat.add_sub_cancel' narrower.le,
    Word.toNat_shiftLeft_or bound small, BitVec.toNat_ushiftRight, Nat.shiftRight_eq_div_pow]

/--
The label handed to an asker is usable exactly when the target, lengthened by
the difference of the two widths, still fits a word.
-/
theorem usable_getLabelFor_iff {target whoIsAsking : BitVec 64}
    (peer : NumberCompress.getDecompressed target (NumberCompress.bitsUsedForLabel target) ≠ 1) :
    Usable target whoIsAsking (getLabelFor target whoIsAsking) ↔
      Bits.log2x64 target + (NumberCompress.bitsUsedForLabel whoIsAsking -
        NumberCompress.bitsUsedForLabel target) < 64 := by
  by_cases narrower : NumberCompress.bitsUsedForLabel target <
      NumberCompress.bitsUsedForLabel whoIsAsking
  · have targetWidth := NumberCompress.isWidth_bitsUsedForLabel target
    have askerWidth := NumberCompress.isWidth_bitsUsedForLabel whoIsAsking
    have fits := le_trans
      (NumberCompress.bitsUsedForNumber_getDecompressed_le target targetWidth) narrower.le
    have inRange := NumberCompress.getDecompressed_lt target
      (NumberCompress.bitsUsedForLabel target)
    have small := NumberCompress.toNat_getCompressed_lt askerWidth inRange fits
    have value := toNat_getLabelFor narrower
    have nonzero : target ≠ 0 := by
      rintro rfl
      have ten : NumberCompress.bitsUsedForLabel 0 = 10 := by decide
      rcases askerWidth with width | width | width <;> omega
    have starts : Word.low (NumberCompress.bitsUsedForLabel whoIsAsking)
        (getLabelFor target whoIsAsking) = NumberCompress.getCompressed
          (NumberCompress.getDecompressed target (NumberCompress.bitsUsedForLabel target))
          (NumberCompress.bitsUsedForLabel whoIsAsking) := by
      apply BitVec.eq_of_toNat_eq
      rw [Word.toNat_low, value, Nat.mul_comm, Nat.mul_add_mod, Nat.mod_eq_of_lt small]
    obtain ⟨width, decodes⟩ :=
      NumberCompress.decode_of_low_eq askerWidth inRange fits peer starts
    have rest : getLabelFor target whoIsAsking >>>
          NumberCompress.bitsUsedForLabel (getLabelFor target whoIsAsking) =
        target >>> NumberCompress.bitsUsedForLabel target ↔
        Bits.log2x64 target + (NumberCompress.bitsUsedForLabel whoIsAsking -
          NumberCompress.bitsUsedForLabel target) < 64 := by
      rw [width, ← BitVec.toNat_inj, BitVec.toNat_ushiftRight, BitVec.toNat_ushiftRight,
        Nat.shiftRight_eq_div_pow, Nat.shiftRight_eq_div_pow, value, Nat.mul_comm,
        Nat.mul_add_div (Nat.two_pow_pos _), Nat.div_eq_of_lt small, Nat.add_zero,
        Nat.mod_eq_iff_lt (Nat.two_pow_pos _).ne', Nat.div_lt_iff_lt_mul (Nat.two_pow_pos _),
        ← Nat.pow_add, ← Bits.log2x64_lt nonzero]
      rcases targetWidth with first | first | first <;>
        rcases askerWidth with second | second | second <;> omega
    refine ⟨fun usable => rest.mp usable.rest, fun short => ?_⟩
    exact {
      iface := by rw [width, decodes]
      width := width.ge
      rest := rest.mpr short }
  · have short := Bits.log2x64_le target
    have same : getLabelFor target whoIsAsking = target := by
      simp only [getLabelFor, ge_iff_le, not_lt.mp narrower, if_true]
    refine ⟨fun _ => by omega, fun _ => ?_⟩
    rw [same]
    exact ⟨rfl, not_lt.mp narrower, rfl⟩

/-- A short label in slot 2 is rewritten for an asker in slot 40. -/
theorem usable_getLabelFor_short : Usable 0x15 1180 (getLabelFor 0x15 1180) :=
  (usable_getLabelFor_iff (by decide)).mpr (by decide)

/--
Fifteen hops through slot 2 make a label of 61 bits. Rewriting it for an asker
in slot 40 needs six bits more, and the terminator is lost.
-/
theorem not_usable_getLabelFor :
    0x15 = NumberCompress.getCompressed 2 4 ||| 1 <<< 4 ∧
      1180 = NumberCompress.getCompressed 40 10 ||| 1 <<< 10 ∧
      (splice 0x15)^[14] 0x15 = 0x1555555555555555 ∧
      Bits.log2x64 0x1555555555555555 = 60 ∧
      ¬ Usable 0x1555555555555555 1180 (getLabelFor 0x1555555555555555 1180) :=
  ⟨by decide, by decide, by decide +kernel, by decide, fun usable => absurd usable.rest (by decide)⟩

end Cjdns.LabelSplicer
