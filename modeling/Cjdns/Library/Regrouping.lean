import Mathlib.Data.Nat.Digits.Lemmas
import Mathlib.Tactic

/-!
# Regrouping digits

The digits of a number in one power of two, the low one first, are taken one after the other
into an accumulator, and the digits in another power of two are given out of it. `Regrouped`
is what holds all the time; `Packs` is what such a code comes to in the end.
-/

namespace Regrouping

/-- Digits of `a` bits have been taken, digits of `b` bits have been given, and `bits` bits are
left in `work`. -/
structure Regrouped (a b : ℕ) (taken given : List ℕ) (work bits : ℕ) : Prop where
  value : Nat.ofDigits (2 ^ a) taken = Nat.ofDigits (2 ^ b) given + 2 ^ (b * given.length) * work
  size : a * taken.length = b * given.length + bits
  work_lt : work < 2 ^ bits
  taken_lt : ∀ digit ∈ taken, digit < 2 ^ a
  given_lt : ∀ digit ∈ given, digit < 2 ^ b

/-- The target is the source in digits of `b` bits, with zeros up to the end of the last one. -/
structure Packs (a b : ℕ) (source target : List ℕ) : Prop where
  value : Nat.ofDigits (2 ^ a) source = Nat.ofDigits (2 ^ b) target
  enough : a * source.length ≤ b * target.length
  tight : b * target.length < a * source.length + b
  source_lt : ∀ digit ∈ source, digit < 2 ^ a
  target_lt : ∀ digit ∈ target, digit < 2 ^ b

/-- Numbers are equal if their multiples are less than one factor apart. -/
theorem eq_of_mul_lt_mul_add {factor one two : ℕ} (below : factor * one < factor * two + factor)
    (above : factor * two < factor * one + factor) : one = two := by
  rw [← Nat.mul_succ] at below above
  have under := Nat.lt_of_mul_lt_mul_left below
  have upper := Nat.lt_of_mul_lt_mul_left above
  omega

variable {a b work bits digit : ℕ} {taken given source target : List ℕ}

namespace Regrouped

theorem start (a b : ℕ) : Regrouped a b [] [] 0 0 where
  value := by simp
  size := by simp
  work_lt := by simp
  taken_lt := by simp
  given_lt := by simp

theorem or_shiftLeft_eq (small : work < 2 ^ bits) (digit : ℕ) :
    work ||| digit <<< bits = work + 2 ^ bits * digit := by
  rw [Nat.shiftLeft_eq, Nat.mul_comm digit, Nat.or_comm, ← Nat.two_pow_add_eq_or_of_lt small,
    Nat.add_comm]

/-- A digit is put on top of what is left. -/
theorem take (regrouped : Regrouped a b taken given work bits) (small : digit < 2 ^ a) :
    Regrouped a b (taken ++ [digit]) given (work ||| digit <<< bits) (bits + a) where
  value := by
    have place : (2 ^ a) ^ taken.length = 2 ^ (b * given.length) * 2 ^ bits := by
      rw [← pow_mul, regrouped.size, pow_add]
    rw [Nat.ofDigits_append, Nat.ofDigits_singleton, regrouped.value, place,
      or_shiftLeft_eq regrouped.work_lt]
    ring
  size := by
    have size := regrouped.size
    rw [List.length_append, List.length_singleton, Nat.mul_add, Nat.mul_one]
    omega
  work_lt := by
    have before := regrouped.work_lt
    rw [or_shiftLeft_eq before, pow_add]
    calc work + 2 ^ bits * digit < 2 ^ bits * (digit + 1) := by
          rw [Nat.mul_succ]
          omega
      _ ≤ 2 ^ bits * 2 ^ a := Nat.mul_le_mul_left _ small
  taken_lt := by
    intro other mem
    rcases List.mem_append.mp mem with old | new
    · exact regrouped.taken_lt other old
    · rw [List.mem_singleton.mp new]
      exact small
  given_lt := regrouped.given_lt

/-- The low end of what is left is given. -/
theorem give (regrouped : Regrouped a b taken given work bits) (ready : b ≤ bits) :
    Regrouped a b taken (given ++ [work % 2 ^ b]) (work >>> b) (bits - b) where
  value := by
    have split := Nat.mod_add_div work (2 ^ b)
    rw [regrouped.value, Nat.ofDigits_append, Nat.ofDigits_singleton, List.length_append,
      List.length_singleton, Nat.shiftRight_eq_div_pow, ← pow_mul, Nat.mul_add, Nat.mul_one,
      pow_add]
    calc Nat.ofDigits (2 ^ b) given + 2 ^ (b * given.length) * work
        = Nat.ofDigits (2 ^ b) given +
            2 ^ (b * given.length) * (work % 2 ^ b + 2 ^ b * (work / 2 ^ b)) := by rw [split]
      _ = _ := by ring
  size := by
    have size := regrouped.size
    rw [List.length_append, List.length_singleton, Nat.mul_add, Nat.mul_one]
    omega
  work_lt := by
    rw [Nat.shiftRight_eq_div_pow]
    apply Nat.div_lt_of_lt_mul
    rw [← pow_add, Nat.add_sub_cancel' ready]
    exact regrouped.work_lt
  taken_lt := regrouped.taken_lt
  given_lt := by
    intro other mem
    rcases List.mem_append.mp mem with old | new
    · exact regrouped.given_lt other old
    · rw [List.mem_singleton.mp new]
      exact Nat.mod_lt _ (Nat.two_pow_pos b)

/-- Nothing is left. -/
theorem packs_of_bits_eq_zero (regrouped : Regrouped a b taken given work 0) (positive : 0 < b) :
    Packs a b taken given where
  value := by
    have work_eq : work = 0 := by simpa using regrouped.work_lt
    rw [regrouped.value, work_eq, Nat.mul_zero, Nat.add_zero]
  enough := by
    have size := regrouped.size
    omega
  tight := by
    have size := regrouped.size
    omega
  source_lt := regrouped.taken_lt
  target_lt := regrouped.given_lt

/-- What is left is less than a digit, and it is given as the last one. -/
theorem packs_append (regrouped : Regrouped a b taken given work bits) (left : 0 < bits)
    (short : bits < b) : Packs a b taken (given ++ [work]) where
  value := by
    rw [regrouped.value, Nat.ofDigits_append, Nat.ofDigits_singleton, ← pow_mul]
  enough := by
    have size := regrouped.size
    rw [List.length_append, List.length_singleton, Nat.mul_add, Nat.mul_one]
    omega
  tight := by
    have size := regrouped.size
    rw [List.length_append, List.length_singleton, Nat.mul_add, Nat.mul_one]
    omega
  source_lt := regrouped.taken_lt
  target_lt := by
    intro other mem
    rcases List.mem_append.mp mem with old | new
    · exact regrouped.given_lt other old
    · rw [List.mem_singleton.mp new]
      exact lt_of_lt_of_le regrouped.work_lt (Nat.pow_le_pow_right (by omega) (by omega))

/-- Digits that are regrouped are the packing of what has been given, if less than one of them is
left and it is zero. -/
theorem packs_of_zero (regrouped : Regrouped b a target source 0 bits) (short : bits < b) :
    Packs a b source target where
  value := by
    rw [regrouped.value, Nat.mul_zero, Nat.add_zero]
  enough := by
    have size := regrouped.size
    omega
  tight := by
    have size := regrouped.size
    omega
  source_lt := regrouped.given_lt
  target_lt := regrouped.taken_lt

end Regrouped

namespace Packs

/-- Every source can be packed. -/
theorem exists_target (wide : 0 < a) (positive : 0 < b) (small : ∀ digit ∈ source, digit < 2 ^ a) :
    ∃ target, Packs a b source target := by
  have base : 1 < 2 ^ b := Nat.one_lt_two_pow (by omega)
  have ⟨count, enough, tight⟩ : ∃ count, a * source.length ≤ b * count ∧
      b * count < a * source.length + b := by
    refine ⟨(a * source.length + b - 1) / b, ?_, ?_⟩
    · have split := Nat.mod_add_div (a * source.length + b - 1) b
      have part := Nat.mod_lt (a * source.length + b - 1) positive
      omega
    · have most := Nat.mul_div_le (a * source.length + b - 1) b
      omega
  have room : Nat.ofDigits (2 ^ a) source < (2 ^ b) ^ count := by
    have below := Nat.ofDigits_lt_base_pow_length (Nat.one_lt_two_pow (by omega)) small
    apply lt_of_lt_of_le below
    rw [← pow_mul, ← pow_mul]
    exact Nat.pow_le_pow_right (by omega) enough
  have length := Nat.length_digitsAppend base count room
  refine ⟨Nat.digitsAppend (2 ^ b) count (Nat.ofDigits (2 ^ a) source), ?_, ?_, ?_, small, ?_⟩
  · rw [Nat.digitsAppend, Nat.ofDigits_append_replicate_zero, Nat.ofDigits_digits]
  · rw [length]
    exact enough
  · rw [length]
    exact tight
  · intro digit mem
    exact Nat.lt_of_mem_digitsAppend base count digit mem

/-- A source has one packing. -/
theorem target_eq {other : List ℕ} (packs : Packs a b source target)
    (again : Packs a b source other) (positive : 0 < b) : target = other := by
  have same : target.length = other.length := by
    have enough := packs.enough
    have tight := packs.tight
    have enough' := again.enough
    have tight' := again.tight
    apply @eq_of_mul_lt_mul_add b <;> omega
  exact Nat.ofDigits_inj_of_len_eq (Nat.one_lt_two_pow (by omega)) same packs.target_lt
    again.target_lt (packs.value.symm.trans again.value)

/-- A packing into shorter digits has one source. -/
theorem source_eq {other : List ℕ} (packs : Packs a b source target)
    (again : Packs a b other target) (shorter : b ≤ a) (positive : 0 < b) : source = other := by
  have same : source.length = other.length := by
    have enough := packs.enough
    have tight := packs.tight
    have enough' := again.enough
    have tight' := again.tight
    apply @eq_of_mul_lt_mul_add a <;> omega
  exact Nat.ofDigits_inj_of_len_eq (Nat.one_lt_two_pow (by omega)) same packs.source_lt
    again.source_lt (packs.value.trans again.value.symm)

/-- If digits are a packing, then less than one of them is left of them, and it is zero. -/
theorem left_of_regrouped (packs : Packs a b source target)
    {back : List ℕ} (regrouped : Regrouped b a target back work bits) (whole : bits < a)
    (shorter : b ≤ a) (positive : 0 < b) : bits < b ∧ work = 0 := by
  have enough := packs.enough
  have tight := packs.tight
  have size := regrouped.size
  have same : source.length = back.length := by
    apply @eq_of_mul_lt_mul_add a <;> omega
  rw [same] at tight
  refine ⟨by omega, ?_⟩
  have below := Nat.ofDigits_lt_base_pow_length (Nat.one_lt_two_pow (by omega)) packs.source_lt
  rw [packs.value, regrouped.value, same, ← pow_mul] at below
  by_contra nonzero
  have above := Nat.mul_le_mul_left (2 ^ (a * back.length)) (Nat.pos_of_ne_zero nonzero)
  omega

end Packs

end Regrouping
