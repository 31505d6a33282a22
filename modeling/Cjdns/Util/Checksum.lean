import Cjdns.Library.Memory

/-!
# The Internet checksum

The one's complement sum of `util/Checksum.h` over the 16-bit words of a
buffer, as the little endian host loads them.
-/

namespace Cjdns.Checksum

/-- The loop of `Checksum_step` over the pairs of bytes. -/
def stepLoop (memory : Memory) (buffer : ℤ) : ℕ → BitVec 32 → BitVec 32
  | 0, state => state
  | pairs + 1, state =>
      stepLoop memory buffer pairs state + (memory.load (buffer + 2 * pairs) 16).setWidth 32

/-- `Checksum_step` -/
def step (memory : Memory) (buffer : ℤ) (length : ℕ) (state : BitVec 32) : BitVec 32 :=
  let state := stepLoop memory buffer (length / 2) state
  if length % 2 ≠ 0 then state + (memory (buffer + length - 1)).setWidth 32 else state

/-- The loop of `Checksum_complete`; two rounds fold any 32-bit sum into 16 bits. -/
def completeLoop : ℕ → BitVec 32 → BitVec 32
  | 0, state => state
  | rounds + 1, state =>
      if state > 0xFFFF then completeLoop rounds ((state >>> 16) + (state &&& 0xFFFF))
      else state

/-- `Checksum_complete` -/
def complete (state : BitVec 32) : BitVec 16 :=
  ~~~(completeLoop 2 state).setWidth 16

/-- `Checksum_engine`, whose length is a 16-bit number -/
def engine (memory : Memory) (buffer : ℤ) (length : BitVec 16) : BitVec 16 :=
  complete (step memory buffer length.toNat 0)

/-- A round of the loop of `complete` -/
theorem toNat_fold (state : BitVec 32) :
    ((state >>> 16) + (state &&& 0xFFFF)).toNat = state.toNat / 65536 + state.toNat % 65536 := by
  have bound := state.isLt
  rw [BitVec.toNat_add, BitVec.toNat_ushiftRight, BitVec.toNat_and,
    show (0xFFFF : BitVec 32).toNat = 2 ^ 16 - 1 from rfl, Nat.and_two_pow_sub_one_eq_mod,
    Nat.shiftRight_eq_div_pow]
  omega

/-- The loop of `complete` has ended when it is cut off. -/
theorem completeLoop_le (state : BitVec 32) : (completeLoop 2 state).toNat ≤ 0xFFFF := by
  have bound := state.isLt
  simp only [completeLoop, gt_iff_lt, BitVec.lt_def,
    show (0xFFFF : BitVec 32).toNat = 0xFFFF from rfl]
  split_ifs with first second
  · rw [toNat_fold, toNat_fold]
    rw [toNat_fold] at second
    omega
  · omega
  · omega

end Cjdns.Checksum
