import Mathlib.Tactic

/-!
# Exclusive sums

The exclusive or of the first values of a sequence of words. What comes twice is gone, so that two
whole periods of a periodic sequence add nothing.
-/

/-- The exclusive or of so many values -/
def xorSum {width : ℕ} (values : ℕ → BitVec width) : ℕ → BitVec width
  | 0 => BitVec.ofNat width 0
  | count + 1 => xorSum values count ^^^ values count

namespace XorSum

variable {width : ℕ} {values other : ℕ → BitVec width}

@[simp]
theorem zero : xorSum values 0 = BitVec.ofNat width 0 := rfl

theorem succ (count : ℕ) : xorSum values (count + 1) = xorSum values count ^^^ values count := rfl

theorem congr {count : ℕ} (same : ∀ index < count, values index = other index) :
    xorSum values count = xorSum other count := by
  induction count with
  | zero => rfl
  | succ count ih =>
      rw [succ, succ, same count (Nat.lt_succ_self count),
        ih fun index below => same index (Nat.lt_succ_of_lt below)]

theorem add (count more : ℕ) :
    xorSum values (count + more) =
      xorSum values count ^^^ xorSum (fun index => values (count + index)) more := by
  induction more with
  | zero => rw [Nat.add_zero, zero, BitVec.xor_zero]
  | succ more ih => rw [← Nat.add_assoc, succ, ih, succ, BitVec.xor_assoc]

/-- The first value is taken out. -/
theorem succ' (count : ℕ) :
    xorSum values (count + 1) = values 0 ^^^ xorSum (fun index => values (index + 1)) count := by
  rw [Nat.add_comm, add, succ, zero, BitVec.zero_xor]
  congr 1
  exact congr fun index _ => by rw [Nat.add_comm]

theorem eq_zero {count : ℕ} (zeros : ∀ index < count, values index = BitVec.ofNat width 0) :
    xorSum values count = BitVec.ofNat width 0 := by
  induction count with
  | zero => rfl
  | succ count ih =>
      rw [succ, ih fun index below => zeros index (Nat.lt_succ_of_lt below),
        zeros count (Nat.lt_succ_self count), BitVec.xor_zero]

theorem reverse (values : ℕ → BitVec width) (count : ℕ) :
    xorSum (fun index => values (count - 1 - index)) count = xorSum values count := by
  induction count with
  | zero => rfl
  | succ count ih =>
      rw [succ', succ, BitVec.xor_comm, ← ih]
      congr 1
      exact congr fun index below => by congr 1; omega

theorem map {wide : ℕ} (send : BitVec width → BitVec wide)
    (sendZero : send (BitVec.ofNat width 0) = BitVec.ofNat wide 0)
    (sendXor : ∀ left right, send (left ^^^ right) = send left ^^^ send right) (count : ℕ) :
    send (xorSum values count) = xorSum (fun index => send (values index)) count := by
  induction count with
  | zero => exact sendZero
  | succ count ih => rw [succ, sendXor, ih, succ]

variable {period : ℕ}

/-- A whole period adds the same wherever it begins. -/
theorem add_period (periodic : Function.Periodic values period) (count : ℕ) :
    xorSum values (count + period) = xorSum values count ^^^ xorSum values period := by
  induction count with
  | zero => rw [Nat.zero_add, zero, BitVec.zero_xor]
  | succ count ih =>
      rw [Nat.add_right_comm, succ, ih, periodic count, succ, BitVec.xor_assoc, BitVec.xor_assoc,
        BitVec.xor_comm (xorSum values period)]

/-- Two whole periods add nothing. -/
theorem add_two_periods (periodic : Function.Periodic values period) (count : ℕ) :
    xorSum values (count + 2 * period) = xorSum values count := by
  rw [Nat.two_mul, ← Nat.add_assoc, add_period periodic, add_period periodic, BitVec.xor_assoc,
    BitVec.xor_self, BitVec.xor_zero]

/-- Of the values at the places of one remainder, the ones there are left. -/
theorem stride (step : ℕ) {remainder : ℕ} (below : remainder < step) (rounds : ℕ) :
    xorSum (fun index =>
      if index % step = remainder then values (index / step) else BitVec.ofNat width 0)
      (step * rounds) = xorSum values rounds := by
  induction rounds with
  | zero => rfl
  | succ rounds ih =>
      rw [Nat.mul_succ, add, ih, succ]
      congr 1
      have once (index : ℕ) (inside : index < step) :
          (if (step * rounds + index) % step = remainder then
            values ((step * rounds + index) / step) else BitVec.ofNat width 0) =
          if index = remainder then values rounds else BitVec.ofNat width 0 := by
        rw [Nat.mul_add_mod, Nat.mod_eq_of_lt inside, Nat.mul_add_div (by omega),
          Nat.div_eq_of_lt inside, Nat.add_zero]
      rw [congr once]
      have split : step = remainder + ((step - remainder - 1) + 1) := by omega
      rw [split, add, eq_zero fun index inside => if_neg (by omega), succ', BitVec.zero_xor,
        if_pos (Nat.add_zero remainder), eq_zero fun index _ => if_neg (by omega),
        BitVec.xor_zero]

end XorSum
