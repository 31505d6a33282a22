import Cjdns.Net.ErrorPacket

/-!
# The reversal of labels

A label is reversed where a packet turns back, and it is held in big endian order there: in an error
packet of the switch, and in every packet that the ducttape gets. A switch puts the reversed
discriminator of the source above what is left of a label.
-/

namespace Cjdns

open NumberCompress (INTERFACES)

/-- The reversal of `incomingFromSwitch`: the label is reversed, although it is in big endian. -/
theorem Headers.label_reversed (memory : Memory) (header : ℤ) :
    label (setLabel_be memory header (Bits.bitReverse64 (label_be memory header))) header =
      Bits.bitReverse64 (label memory header) := by
  rw [label, label_be, setLabel_be, Memory.load_store _ _ _ (by norm_num)]
  exact (Endian.bitReverse64_byteSwap64 _).symm

theorem Bits.getLsbD_bitReverse64 (word : BitVec 64) {index : ℕ} (inside : index < 64) :
    (bitReverse64 word).getLsbD index = word.getLsbD (63 - index) := by
  rw [bitReverse64_eq_reverse, BitVec.getLsbD_reverse, BitVec.getMsbD_eq_getLsbD,
    decide_eq_true inside, Bool.true_and]

/-- The reversed discriminator does not meet what is left of the label. -/
theorem Bits.ushiftRight_and_bitReverse64 {discriminator : BitVec 64} {width : ℕ}
    (small : discriminator.toNat < 2 ^ width) (label : BitVec 64) :
    (label >>> width) &&& bitReverse64 discriminator = 0 := by
  rw [bitReverse64_eq_reverse]
  exact Word.ushiftRight_and_reverse small label

namespace SwitchCore

/-- A label that is forwarded is put together of two fields that do not meet. -/
theorem apart_of_route {core : SwitchCore} {sourceIndex destIndex : Fin INTERFACES}
    {label targetLabel : BitVec 64}
    (forwards : core.route sourceIndex label = .forward destIndex targetLabel) :
    ∃ (discriminator : BitVec 64) (width : ℕ), width ≤ 10 ∧ discriminator.toNat < 2 ^ width ∧
      targetLabel = (label >>> width) ||| Bits.bitReverse64 discriminator ∧
      (label >>> width) &&& Bits.bitReverse64 discriminator = 0 := by
  rcases exists_exchange_of_route forwards with ⟨-, width, exchange, -⟩
  have small := NumberCompress.toNat_getCompressed_lt exchange.width sourceIndex.isLt
    exchange.sourceFits
  refine ⟨_, width, ?_, small, exchange.target_eq, Bits.ushiftRight_and_bitReverse64 small label⟩
  rcases exchange.width with rfl | rfl | rfl <;> decide

end SwitchCore

/--
The reversal of a label: every bit goes to its mirrored place, twice gives the label back, and the
order of the bytes makes no difference, neither in an error packet nor in a packet that arrives. The
fields that a switch puts together do not meet.
-/
theorem bitReverse64_isEndianSafe :
    (∀ (word : BitVec 64) (index : ℕ), index < 64 →
      (Bits.bitReverse64 word).getLsbD index = word.getLsbD (63 - index)) ∧
    (∀ word, Bits.bitReverse64 (Bits.bitReverse64 word) = word) ∧
    (∀ word, Bits.bitReverse64 (Endian.hostToBigEndian64 word) =
      Endian.hostToBigEndian64 (Bits.bitReverse64 word)) ∧
    (∀ (memory : Memory) (err header : ℤ) (code : BitVec 32),
      Headers.label (SwitchCore.writeErrorPacket memory err header code) err =
        Bits.bitReverse64 (Headers.label memory header)) ∧
    (∀ (memory : Memory) (header : ℤ),
      Headers.label (Headers.setLabel_be memory header
        (Bits.bitReverse64 (Headers.label_be memory header))) header =
          Bits.bitReverse64 (Headers.label memory header)) ∧
    (∀ (label discriminator : BitVec 64) (width : ℕ), width ≤ 10 →
      discriminator.toNat < 2 ^ width →
        (label >>> width) &&& Bits.bitReverse64 discriminator = 0) ∧
    ∀ (core : SwitchCore) (sourceIndex destIndex : Fin INTERFACES) (label targetLabel : BitVec 64),
      core.route sourceIndex label = .forward destIndex targetLabel →
        ∃ (discriminator : BitVec 64) (width : ℕ), width ≤ 10 ∧ discriminator.toNat < 2 ^ width ∧
          targetLabel = (label >>> width) ||| Bits.bitReverse64 discriminator ∧
          (label >>> width) &&& Bits.bitReverse64 discriminator = 0 := by
  refine ⟨?_, Bits.bitReverse64_bitReverse64, Endian.bitReverse64_byteSwap64,
    SwitchCore.label_writeErrorPacket, Headers.label_reversed, ?_, ?_⟩
  · intro word index inside
    exact Bits.getLsbD_bitReverse64 word inside
  · intro label discriminator width _ small
    exact Bits.ushiftRight_and_bitReverse64 small label
  · intro core sourceIndex destIndex label targetLabel forwards
    exact SwitchCore.apart_of_route forwards

end Cjdns
