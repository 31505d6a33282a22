import Cjdns.Crypto.ReplayProtector
import Mathlib.Data.Nat.Bitwise

/-!
# The replay window on words

The replay protector on the 32-bit words of the program. No word overflows, so it does what the
one on numbers does. From there: which nonces of a sequence are accepted.
-/

namespace Cjdns.ReplayProtector

/-- `struct ReplayProtector`, with its words -/
structure Words where
  baseOffset : BitVec 32 := 0
  bitfield : BitVec 32 := 0
deriving DecidableEq

namespace Words

/-- `ReplayProtector_checkNonce` -/
def checkNonce (nonce : BitVec 32) (context : Words) : Bool × Words :=
  if nonce < context.baseOffset then (false, context)
  else
    let offset := nonce - context.baseOffset
    if 20 < offset then
      (true, {
        baseOffset := context.baseOffset + (offset - 20)
        bitfield := (if 51 < offset then 0 else context.bitfield >>> (offset - 20)) ||| 1 <<< 20 })
    else if context.bitfield &&& (1 : BitVec 32) <<< offset ≠ 0 then (false, context)
    else (true, { context with bitfield := context.bitfield ||| (1 : BitVec 32) <<< offset })

/-- A call for each nonce of a sequence: the context, and the nonces that were accepted -/
def checkNonces (nonces : List (BitVec 32)) : Words × List (BitVec 32) :=
  nonces.foldl (fun state nonce =>
    let checked := checkNonce nonce state.1
    (checked.2, if checked.1 then nonce :: state.2 else state.2)) ({}, [])

theorem checkNonces_append (earlier : List (BitVec 32)) (nonce : BitVec 32) :
    checkNonces (earlier ++ [nonce]) =
      ((checkNonce nonce (checkNonces earlier).1).2,
        if (checkNonce nonce (checkNonces earlier).1).1 then nonce :: (checkNonces earlier).2
        else (checkNonces earlier).2) := by
  rw [checkNonces, List.foldl_append]
  rfl

/-! ## The words are the numbers -/

variable {context : Words} {nonce : BitVec 32}

/-- The numbers in the words -/
def value (context : Words) : ReplayProtector where
  baseOffset := context.baseOffset.toNat
  bitfield := context.bitfield.toNat

theorem toNat_one_shiftLeft {bit : BitVec 32} (low : bit ≤ 20) :
    ((1 : BitVec 32) <<< bit).toNat = 1 <<< bit.toNat := by
  have inside : bit.toNat ≤ 20 := BitVec.le_def.mp low
  have small : 2 ^ bit.toNat < 2 ^ 32 := Nat.pow_lt_pow_right (by norm_num) (by omega)
  rw [BitVec.shiftLeft_eq', BitVec.toNat_shiftLeft, show (1 : BitVec 32).toNat = 1 from rfl,
    Nat.one_shiftLeft, Nat.mod_eq_of_lt small]

theorem and_one_shiftLeft_ne_zero {field bit : BitVec 32} (low : bit ≤ 20) :
    field &&& (1 : BitVec 32) <<< bit ≠ 0 ↔ field.toNat.testBit bit.toNat = true := by
  have masked : (field &&& (1 : BitVec 32) <<< bit).toNat = field.toNat &&& 2 ^ bit.toNat := by
    rw [BitVec.toNat_and, toNat_one_shiftLeft low, Nat.one_shiftLeft]
  rw [ne_eq, ← BitVec.toNat_inj, masked, show (0 : BitVec 32).toNat = 0 from rfl,
    Nat.and_two_pow]
  cases field.toNat.testBit bit.toNat <;> simp

/-- No word overflows. -/
theorem value_checkNonce (nonce : BitVec 32) (context : Words) :
    ReplayProtector.checkNonce nonce.toNat context.value =
      ((checkNonce nonce context).1, (checkNonce nonce context).2.value) := by
  rw [checkNonce, ReplayProtector.checkNonce]
  by_cases below : nonce < context.baseOffset
  · rw [if_pos below, if_pos (show nonce.toNat < context.value.baseOffset from below)]
  · have above : context.baseOffset.toNat ≤ nonce.toNat := not_lt.mp below
    have offset : (nonce - context.baseOffset).toNat = nonce.toNat - context.value.baseOffset :=
      BitVec.toNat_sub_of_le above
    rw [if_neg below, if_neg (show ¬nonce.toNat < context.value.baseOffset from below)]
    dsimp only
    rw [← offset]
    generalize same : nonce - context.baseOffset = distance
    by_cases far : 20 < distance
    · have farther : 20 < distance.toNat := far
      have rest : (distance - 20).toNat = distance.toNat - 20 :=
        BitVec.toNat_sub_of_le (show 20 ≤ distance.toNat from farther.le)
      have sum : context.baseOffset.toNat + (distance.toNat - 20) < 2 ^ 32 := by
        have := nonce.isLt
        have whole : distance.toNat = nonce.toNat - context.baseOffset.toNat := by
          rw [← same]
          exact offset
        omega
      rw [if_pos far, if_pos farther]
      simp only [value, BitVec.toNat_or, BitVec.toNat_add, rest, Nat.mod_eq_of_lt sum]
      by_cases gone : 51 < distance
      · rw [if_pos gone, if_pos (show 51 < distance.toNat from gone)]
        rfl
      · rw [if_neg gone, if_neg (show ¬51 < distance.toNat from gone), BitVec.ushiftRight_eq',
          BitVec.toNat_ushiftRight, rest]
        rfl
    · have low : distance ≤ 20 := BitVec.not_lt.mp far
      rw [if_neg far, if_neg (show ¬20 < distance.toNat from far)]
      by_cases filed : context.bitfield &&& (1 : BitVec 32) <<< distance ≠ 0
      · rw [if_pos filed, if_pos (show context.value.bitfield.testBit distance.toNat = true from
          (and_one_shiftLeft_ne_zero low).mp filed)]
      · rw [if_neg filed, if_neg (show ¬context.value.bitfield.testBit distance.toNat = true from
          (and_one_shiftLeft_ne_zero low).not.mp filed)]
        simp only [value, BitVec.toNat_or, toNat_one_shiftLeft low]

/-! ## Which nonces are accepted -/

/-- The highest nonce of those accepted, and zero where none was -/
def highest (accepted : List (BitVec 32)) : ℕ :=
  (accepted.map BitVec.toNat).foldr max 0

/-- The window blocks what was accepted, and what is more than twenty below the highest. -/
structure Records (context : Words) (accepted : List (BitVec 32)) : Prop where
  window : context.value.IsWindow
  blocks : ∀ other : ℕ, context.value.Blocks other ↔
    (∃ nonce ∈ accepted, nonce.toNat = other) ∨ other + 20 < highest accepted

theorem records_new : Records {} [] where
  window := isWindow_new
  blocks other := by
    refine iff_of_false not_blocks_new ?_
    simp [highest]

theorem Records.checkNonce {accepted : List (BitVec 32)} (records : Records context accepted)
    (nonce : BitVec 32) :
    Records (checkNonce nonce context).2
      (if (Words.checkNonce nonce context).1 then nonce :: accepted else accepted) := by
  have numbers := value_checkNonce nonce context
  have window := @checkNonce_isWindow _ nonce.toNat records.window
  rw [numbers] at window
  by_cases passes : (Words.checkNonce nonce context).1 = true
  · have free : ¬context.value.Blocks nonce.toNat := by
      rw [← checkNonce_iff, numbers]
      exact passes
    rw [if_pos passes]
    refine ⟨window, fun other => ?_⟩
    have filed := @blocks_checkNonce_iff _ _ other records.window free
    rw [numbers] at filed
    rw [filed, records.blocks]
    simp only [highest, List.map_cons, List.foldr_cons, lt_max_iff, List.mem_cons,
      exists_eq_or_imp]
    rw [eq_comm]
    exact or_assoc.symm.trans or_or_or_comm
  · have same := @checkNonce_refused nonce.toNat context.value (by
      rw [numbers]
      exact Bool.not_eq_true _ ▸ passes)
    rw [numbers] at same
    rw [if_neg passes]
    refine ⟨window, fun other => ?_⟩
    rw [← records.blocks other, ← same]

theorem records_checkNonces (nonces : List (BitVec 32)) :
    Records (checkNonces nonces).1 (checkNonces nonces).2 := by
  induction nonces using List.reverseRecOn with
  | nil => exact records_new
  | append_singleton earlier nonce ih =>
      rw [checkNonces_append]
      exact ih.checkNonce nonce

/--
A nonce is accepted exactly when it was not accepted before, and is at most twenty below the
highest that was.
-/
theorem accepts_iff (earlier : List (BitVec 32)) (nonce : BitVec 32) :
    (checkNonce nonce (checkNonces earlier).1).1 = true ↔
      nonce ∉ (checkNonces earlier).2 ∧
        highest (checkNonces earlier).2 - 20 ≤ nonce.toNat := by
  have passes : (checkNonce nonce (checkNonces earlier).1).1 = true ↔
      ¬(checkNonces earlier).1.value.Blocks nonce.toNat := by
    rw [← checkNonce_iff, value_checkNonce]
  have before : (∃ other ∈ (checkNonces earlier).2, other.toNat = nonce.toNat) ↔
      nonce ∈ (checkNonces earlier).2 := by
    simp only [BitVec.toNat_inj, exists_eq_right]
  rw [passes, (records_checkNonces earlier).blocks, before, not_or]
  refine and_congr_right fun _ => ?_
  omega

end Words

end Cjdns.ReplayProtector
