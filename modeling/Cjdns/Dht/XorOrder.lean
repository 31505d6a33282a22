import Cjdns.Dht.CloserSearch
import Cjdns.Util.Endian

/-!
# The order of addresses around a target

`xorCompare` on the words in which a little endian host holds an address. They are compared in the
order of their names, `one` first, which is the third one in memory, and every one of them is read
in big endian order.
-/

namespace Cjdns

/-- `ip6.ints` of `struct Address`, in the order of the memory -/
structure Ints where
  three : BitVec 32
  four : BitVec 32
  one : BitVec 32
  two : BitVec 32

namespace Ints

open Comparison

/-- A byte of an address, the first one of which is on top -/
def byteAt (ip6 : BitVec 128) (index : ℕ) : BitVec 8 :=
  ip6.extractLsb' (8 * (15 - index)) 8

/-- Four bytes as the host reads them -/
def wordAt (ip6 : BitVec 128) (index : ℕ) : BitVec 32 :=
  byteAt ip6 (index + 3) ++ byteAt ip6 (index + 2) ++ byteAt ip6 (index + 1) ++ byteAt ip6 index

def ofIp6 (ip6 : BitVec 128) : Ints where
  three := wordAt ip6 0
  four := wordAt ip6 4
  one := wordAt ip6 8
  two := wordAt ip6 12

/-- `xorcmp` -/
def xorcmp (target negativeIfCloser positiveIfCloser : BitVec 32) : ℤ :=
  if negativeIfCloser = positiveIfCloser then 0
  else
    let ref := Endian.bigEndianToHost32 target
    if Endian.bigEndianToHost32 negativeIfCloser ^^^ ref <
        Endian.bigEndianToHost32 positiveIfCloser ^^^ ref then -1
    else 1

/-! ## Words -/

theorem getLsbD_bytes (high second third low : BitVec 8) (index : ℕ) :
    (high ++ second ++ third ++ low).getLsbD index =
      if index < 8 then low.getLsbD index
      else if index < 16 then third.getLsbD (index - 8)
      else if index < 24 then second.getLsbD (index - 16)
      else high.getLsbD (index - 24) := by
  simp only [BitVec.getLsbD_append, Nat.sub_sub]
  split_ifs <;> first | rfl | omega

/-- In big endian order the bytes of a word stand in the order of the memory. -/
theorem byteSwap32_append (first second third fourth : BitVec 8) :
    Endian.byteSwap32 (fourth ++ third ++ second ++ first) =
      first ++ second ++ third ++ fourth := by
  apply BitVec.eq_of_getLsbD_eq
  intro index inside
  rw [Endian.getLsbD_byteSwap32 _ inside]
  apply (getLsbD_bytes fourth third second first _).trans
  apply Eq.trans _ (getLsbD_bytes first second third fourth _).symm
  interval_cases index <;> rfl

/-- A word in big endian order is a quarter of the address. -/
theorem bigEndianToHost32_wordAt (ip6 : BitVec 128) {index : ℕ} (inside : index + 3 < 16) :
    Endian.bigEndianToHost32 (wordAt ip6 index) = ip6.extractLsb' (8 * (12 - index)) 32 := by
  apply BitVec.eq_of_getLsbD_eq
  intro position below
  rw [Endian.bigEndianToHost32, wordAt, byteSwap32_append]
  apply (getLsbD_bytes _ _ _ _ position).trans
  simp only [byteAt, BitVec.getLsbD_extractLsb']
  split_ifs
  all_goals
    rw [decide_eq_true (by omega), decide_eq_true below]
    congr 2
    omega

/-- The words that the host reads compare as their big endian numbers do. -/
theorem xorcmp_eq (target one two : BitVec 32) :
    xorcmp target one two = Cjdns.xorcmp (Endian.bigEndianToHost32 target)
      (Endian.bigEndianToHost32 one) (Endian.bigEndianToHost32 two) := by
  have same : Endian.bigEndianToHost32 one = Endian.bigEndianToHost32 two ↔ one = two := by
    constructor
    · intro swapped
      simpa using congrArg Endian.byteSwap32 swapped
    · rintro rfl
      rfl
  simp only [xorcmp, Cjdns.xorcmp, same]

theorem bigEndianToHost32_ofIp6 (ip6 : BitVec 128) :
    Endian.bigEndianToHost32 (ofIp6 ip6).one = ip6.extractLsb' 32 32 ∧
      Endian.bigEndianToHost32 (ofIp6 ip6).two = ip6.extractLsb' 0 32 ∧
      Endian.bigEndianToHost32 (ofIp6 ip6).three = ip6.extractLsb' 96 32 ∧
      Endian.bigEndianToHost32 (ofIp6 ip6).four = ip6.extractLsb' 64 32 :=
  ⟨bigEndianToHost32_wordAt ip6 (by decide), bigEndianToHost32_wordAt ip6 (by decide),
    bigEndianToHost32_wordAt ip6 (by decide), bigEndianToHost32_wordAt ip6 (by decide)⟩

/-! ## Addresses -/

variable [AddressCalc]

/-- `xorCompare`; `Address_getPrefix` fills in the addresses first. -/
def xorCompare (target negativeIfCloser positiveIfCloser : Address) : ℤ :=
  let target := ofIp6 target.resolved.ip6
  let negativeIfCloser := ofIp6 negativeIfCloser.resolved.ip6
  let positiveIfCloser := ofIp6 positiveIfCloser.resolved.ip6
  if xorcmp target.one negativeIfCloser.one positiveIfCloser.one ≠ 0 then
    xorcmp target.one negativeIfCloser.one positiveIfCloser.one
  else if xorcmp target.two negativeIfCloser.two positiveIfCloser.two ≠ 0 then
    xorcmp target.two negativeIfCloser.two positiveIfCloser.two
  else if xorcmp target.three negativeIfCloser.three positiveIfCloser.three ≠ 0 then
    xorcmp target.three negativeIfCloser.three positiveIfCloser.three
  else if xorcmp target.four negativeIfCloser.four positiveIfCloser.four ≠ 0 then
    xorcmp target.four negativeIfCloser.four positiveIfCloser.four
  else 0

/-- The number of the bytes 8 to 15 and then 0 to 7 of the exclusive or of two addresses -/
def distance (target addr : Address) : ℕ :=
  let difference := addr.resolved.ip6 ^^^ target.resolved.ip6
  (difference.extractLsb' 0 64 ++ difference.extractLsb' 64 64).toNat

/-- The words of an address are compared as its quarters are by the search. -/
theorem xorCompare_eq (target one two : Address) :
    xorCompare target one two = Cjdns.xorCompare target one two := by
  simp only [xorCompare, Cjdns.xorCompare, xorcmp_eq, bigEndianToHost32_ofIp6]
  split_ifs <;> omega

/-- The prefix is the word that is compared first. -/
theorem getPrefix_eq (addr : Address) :
    addr.getPrefix = Endian.bigEndianToHost32 (ofIp6 addr.resolved.ip6).one :=
  (bigEndianToHost32_ofIp6 _).1.symm

/-! ## Distances -/

/-- A quarter of the exclusive or of two addresses -/
def part (position : ℕ) (target addr : Address) : ℕ :=
  (quarter position addr ^^^ quarter position target).toNat

theorem part_lt (position : ℕ) (target addr : Address) : part position target addr < 2 ^ 32 :=
  BitVec.isLt _

theorem distance_eq (target addr : Address) :
    distance target addr = part 32 target addr * 2 ^ 96 + (part 0 target addr * 2 ^ 64 +
      (part 96 target addr * 2 ^ 32 + part 64 target addr)) := by
  have join {high low : BitVec 32} : (high ++ low).toNat = high.toNat * 2 ^ 32 + low.toNat := by
    rw [BitVec.toNat_append, ← Nat.shiftLeft_add_eq_or_of_lt low.isLt, Nat.shiftLeft_eq]
  have halves (difference : BitVec 128) (start : ℕ) :
      (difference.extractLsb' start 64).toNat =
        (difference.extractLsb' (start + 32) 32).toNat * 2 ^ 32 +
          (difference.extractLsb' start 32).toNat := by
    rw [← join, BitVec.extractLsb'_append_extractLsb'_eq_extractLsb' rfl]
  have low := ((addr.resolved.ip6 ^^^ target.resolved.ip6).extractLsb' 64 64).isLt
  simp only [distance, part, quarter, ← BitVec.extractLsb'_xor]
  rw [BitVec.toNat_append, ← Nat.shiftLeft_add_eq_or_of_lt low, Nat.shiftLeft_eq, halves, halves]
  ring

/-- The words compare as the numbers do that are put together of them. -/
theorem xorCompare_eq_sign (target one two : Address) :
    xorCompare target one two = sign (distance target one) (distance target two) := by
  have word (position : ℕ) :
      Cjdns.xorcmp (quarter position target) (quarter position one) (quarter position two) =
        sign (part position target one) (part position target two) :=
    xorcmp_eq_sign _ _ _
  have lowest (addr : Address) : part 96 target addr * 2 ^ 32 + part 64 target addr < 2 ^ 64 :=
    mul_add_lt (part_lt 96 target addr) (part_lt 64 target addr)
  have lower (addr : Address) : part 0 target addr * 2 ^ 64 +
      (part 96 target addr * 2 ^ 32 + part 64 target addr) < 2 ^ 96 :=
    mul_add_lt (part_lt 0 target addr) (lowest addr)
  have first := @sign_mul_add _ (part 32 target one) (part 32 target two) _ _ (lower one)
    (lower two)
  have second := @sign_mul_add _ (part 0 target one) (part 0 target two) _ _ (lowest one)
    (lowest two)
  have third := @sign_mul_add _ (part 96 target one) (part 96 target two) _ _
    (part_lt 64 target one) (part_lt 64 target two)
  rw [xorCompare_eq, distance_eq, distance_eq, first, second, third]
  simp only [← word]
  rfl

/-- No two addresses are equally far from a target. -/
theorem ip6_eq_of_distance_eq {target one two : Address}
    (same : distance target one = distance target two) : one.resolved.ip6 = two.resolved.ip6 := by
  have join (difference : BitVec 128) :
      difference.extractLsb' 64 64 ++ difference.extractLsb' 0 64 = difference :=
    (BitVec.extractLsb'_append_extractLsb'_eq_extractLsb' rfl).trans BitVec.extractLsb'_eq_self
  have halves := BitVec.toNat_inj.mp same
  have low := congrArg (BitVec.extractLsb' 64 64) halves
  have high := congrArg (BitVec.extractLsb' 0 64) halves
  simp only [BitVec.extractLsb'_append_eq_left, BitVec.extractLsb'_append_eq_right] at low high
  have equal : one.resolved.ip6 ^^^ target.resolved.ip6 =
      two.resolved.ip6 ^^^ target.resolved.ip6 := by
    rw [← join (one.resolved.ip6 ^^^ _), ← join (two.resolved.ip6 ^^^ _), low, high]
  rwa [BitVec.xor_left_inj] at equal

/-- The prefixes decide if they are not equally far. -/
theorem xorCompare_of_prefixes {target one two : Address}
    (apart : one.getPrefix ^^^ target.getPrefix ≠ two.getPrefix ^^^ target.getPrefix) :
    xorCompare target one two =
      if one.getPrefix ^^^ target.getPrefix < two.getPrefix ^^^ target.getPrefix then -1
      else 1 := by
  have unequal : one.getPrefix ≠ two.getPrefix := fun equal => apart (by rw [equal])
  have word : Cjdns.xorcmp target.getPrefix one.getPrefix two.getPrefix =
      if one.getPrefix ^^^ target.getPrefix < two.getPrefix ^^^ target.getPrefix then -1
      else 1 := if_neg unequal
  have decided : Cjdns.xorcmp target.getPrefix one.getPrefix two.getPrefix ≠ 0 := by
    rw [word]
    split_ifs <;> decide
  rw [xorCompare_eq, Cjdns.xorCompare, ← word]
  exact if_pos decided

/-- The order in which a search compares addresses -/
theorem xorCompare_isOrder (target : Address) :
    (∀ one two, xorCompare target one two =
      if distance target one < distance target two then -1
      else if distance target one = distance target two then 0 else 1) ∧
    (∀ one two, xorCompare target two one = - xorCompare target one two) ∧
    (∀ one two three, xorCompare target one two ≤ 0 → xorCompare target two three ≤ 0 →
      xorCompare target one three ≤ 0) ∧
    (∀ one two, xorCompare target one two = 0 → one.resolved.ip6 = two.resolved.ip6) ∧
    (∀ one two, one.getPrefix ^^^ target.getPrefix ≠ two.getPrefix ^^^ target.getPrefix →
      xorCompare target one two =
        if one.getPrefix ^^^ target.getPrefix < two.getPrefix ^^^ target.getPrefix then -1
        else 1) ∧
    ∀ addr : Address, addr.getPrefix =
      Endian.bigEndianToHost32 (ofIp6 addr.resolved.ip6).one := by
  refine ⟨?_, ?_, ?_, ?_, ?_, getPrefix_eq⟩
  · intro one two
    exact xorCompare_eq_sign target one two
  · intro one two
    rw [xorCompare_eq_sign, xorCompare_eq_sign]
    exact sign_swap _ _
  · intro one two three first second
    rw [xorCompare_eq_sign] at first second ⊢
    exact sign_trans first second
  · intro one two equal
    rw [xorCompare_eq_sign] at equal
    exact ip6_eq_of_distance_eq (sign_eq_zero_iff.mp equal)
  · intro one two apart
    exact xorCompare_of_prefixes apart

end Ints

end Cjdns
