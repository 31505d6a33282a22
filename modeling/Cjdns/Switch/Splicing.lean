import Cjdns.Switch.LabelSplicer
import Cjdns.Switch.Network

/-!
# Splicing is path composition

A switch shifts the label down by the bits of one discriminator and fills in
from the top, so that the low bits of a label depend on the bits above the
discriminators only (`Travels.label_mod`), and two labels that agree on the
discriminators take the same way (`Travels.reaches_of_agree`). A spliced label
agrees with the label of the way on its discriminators, and has the other label
above them.
-/

namespace Cjdns

open NumberCompress (INTERFACES)

namespace SwitchCore

variable {core : SwitchCore} {sourceIndex destIndex : Fin INTERFACES}
  {label other targetLabel : BitVec 64}

/-- Below the discriminator that it gains, a forwarded label is the rest of the old one. -/
theorem Exchange.target_mod {bits : ℕ}
    (exchange : Exchange sourceIndex destIndex bits label targetLabel) (kept : ℕ)
    (apart : bits + kept ≤ 64) :
    targetLabel.toNat % 2 ^ kept = label.toNat / 2 ^ bits % 2 ^ kept := by
  have small := NumberCompress.toNat_getCompressed_lt exchange.width sourceIndex.isLt
    exchange.sourceFits
  have zero := Word.toNat_reverse_mod_of_lt small apart
  rw [exchange.target_eq, BitVec.toNat_or, Nat.or_mod_two_pow, Bits.bitReverse64_eq_reverse, zero,
    Nat.or_zero, BitVec.toNat_ushiftRight, Nat.shiftRight_eq_div_pow]

/-- A label that agrees on the discriminator is forwarded in the same way. -/
theorem Exchange.of_agree {bits : ℕ}
    (exchange : Exchange sourceIndex destIndex bits label targetLabel)
    (agree : other.toNat % 2 ^ bits = label.toNat % 2 ^ bits) :
    Exchange sourceIndex destIndex bits other ((other >>> bits) |||
      Bits.bitReverse64 (NumberCompress.getCompressed sourceIndex bits)) where
  width := exchange.width
  sourceFits := exchange.sourceFits
  destFits := exchange.destFits
  starts := by rw [Word.low_eq_low_iff.mpr agree, exchange.starts]
  target_eq := rfl

end SwitchCore

namespace Network

variable {Node : Type*} {net : Network Node}

theorem div_mod_shift (value first second kept : ℕ) :
    value / 2 ^ first % 2 ^ (second + kept) / 2 ^ second =
      value / 2 ^ (first + second) % 2 ^ kept := by
  rw [Nat.pow_add 2 second kept, Nat.mod_mul_right_div_self, Nat.div_div_eq_div_mul, ← Nat.pow_add]

/-- What the first hop of a way does to the label. -/
theorem exchange_of_hop {arrival : Arrival Node} {exit : Fin INTERFACES}
    {far : Node × Fin INTERFACES} {handed next : Message}
    {send : Fin INTERFACES → Message → BitVec 8 × Message}
    (forwards : (net.core arrival.node).receiveMessage send arrival.iface arrival.message =
      some [.forwarded exit handed])
    (linked : net.link arrival.node exit = some far) (carried : Carried handed next) :
    SwitchCore.Exchange arrival.iface exit
      (NumberCompress.bitsUsedForLabel (Headers.messageLabel arrival.message))
      (Headers.messageLabel arrival.message) (Headers.messageLabel next) := by
  obtain ⟨⟨long, sameLength⟩, routed⟩ := SwitchCore.route_of_receiveMessage forwards
  obtain ⟨_, bits, exchange, width⟩ := SwitchCore.exists_exchange_of_route routed
  rw [← width (exit_ne_router linked), carried.messageLabel_eq (sameLength ▸ long)]
  exact exchange

/-- The low bits of a label on its way are the bits above the discriminators consumed so far. -/
theorem Travels.label_mod {start stop : Arrival Node} {hops : List (Hop Node)} {consumed : ℕ}
    (travels : net.Travels start hops consumed stop) {kept : ℕ} (within : consumed + kept ≤ 64) :
    (Headers.messageLabel stop.message).toNat % 2 ^ kept =
      (Headers.messageLabel start.message).toNat / 2 ^ consumed % 2 ^ kept := by
  induction travels with
  | here arrival => simp
  | @hop arrival next stop hops consumed exit handed send forwards linked carried _ ih =>
      have exchange := exchange_of_hop forwards linked carried
      rw [ih (by omega), ← div_mod_shift, ← exchange.target_mod (consumed + kept) (by omega),
        Nat.pow_add, Nat.mod_mul_right_div_self]

/-- Labels that agree on the discriminators take the same way. -/
theorem Travels.reaches_of_agree {start stop : Arrival Node} {hops : List (Hop Node)}
    {consumed : ℕ} (travels : net.Travels start hops consumed stop) (within : consumed ≤ 64)
    {other : Message} (long : Headers.SwitchHeader_SIZE ≤ other.length)
    (agree : (Headers.messageLabel other).toNat % 2 ^ consumed =
      (Headers.messageLabel start.message).toNat % 2 ^ consumed) :
    net.Reaches (fun last => last.node = stop.node ∧ last.iface = stop.iface ∧
        ∀ kept, consumed + kept ≤ 64 → (Headers.messageLabel last.message).toNat % 2 ^ kept =
          (Headers.messageLabel other).toNat / 2 ^ consumed % 2 ^ kept)
      ⟨start.node, start.iface, other⟩ hops := by
  induction travels generalizing other with
  | here arrival => exact .here ⟨rfl, rfl, fun kept _ => by simp⟩
  | @hop arrival next stop hops consumed exit handed send forwards linked carried _ ih =>
      have exchange := exchange_of_hop forwards linked carried
      generalize NumberCompress.bitsUsedForLabel (Headers.messageLabel arrival.message) = bits at *
      have first : (Headers.messageLabel other).toNat % 2 ^ bits =
          (Headers.messageLabel arrival.message).toNat % 2 ^ bits := by
        have dvd := Nat.pow_dvd_pow 2 (Nat.le_add_right bits consumed)
        rw [← Nat.mod_mod_of_dvd _ dvd, agree, Nat.mod_mod_of_dvd _ dvd]
      have otherExchange := exchange.of_agree first
      have routed : (net.core arrival.node).route arrival.iface _ = _ :=
        SwitchCore.route_of_exchange otherExchange (net.link_live linked) (exit_ne_router linked)
      refine .hop (SwitchCore.receiveMessage_of_route (net.metered _ _) long routed) linked
        fun arrived arrivedCarried => ?_
      have arrivedLabel := arrivedCarried.messageLabel_eq (by simpa using long)
      rw [SwitchCore.messageLabel_relabelled] at arrivedLabel
      have arrivedLong : Headers.SwitchHeader_SIZE ≤ arrived.length := by
        rw [arrivedCarried.length_eq, SwitchCore.length_relabelled]
        exact long
      have onward := ih (by omega) arrivedLong (by
        rw [arrivedLabel, otherExchange.target_mod _ (by omega), exchange.target_mod _ (by omega),
          ← Nat.mod_mul_right_div_self, ← Nat.mod_mul_right_div_self, ← Nat.pow_add, agree])
      refine onward.mono fun last ⟨node, iface, low⟩ => ⟨node, iface, fun kept inside => ?_⟩
      rw [low kept (by omega), arrivedLabel, ← div_mod_shift,
        ← otherExchange.target_mod (consumed + kept) (by omega), Nat.pow_add,
        Nat.mod_mul_right_div_self]

/-- Only the terminator of a label is left above its discriminators. -/
theorem log2x64_of_consumed {label : BitVec 64} {consumed : ℕ} (within : consumed < 64)
    (terminator : label.toNat / 2 ^ consumed % 2 ^ (64 - consumed) = 1) :
    Bits.log2x64 label = consumed := by
  have high : label.toNat / 2 ^ consumed = 1 := by
    have bound : label.toNat / 2 ^ consumed < 2 ^ (64 - consumed) := by
      rw [Nat.div_lt_iff_lt_mul (Nat.two_pow_pos _), ← Nat.pow_add, Nat.sub_add_cancel within.le]
      exact label.isLt
    rwa [Nat.mod_eq_of_lt bound] at terminator
  have division := Nat.div_add_mod label.toNat (2 ^ consumed)
  have remainder := Nat.mod_lt label.toNat (Nat.two_pow_pos consumed)
  rw [high, Nat.mul_one] at division
  apply LabelSplicer.log2x64_eq_of_bounds
  · omega
  · rw [Nat.pow_succ]
    omega

/-- A packet with a spliced label takes the way and arrives with the label that was spliced on. -/
theorem Travels.reaches_splice {router : Node} {packet spliced : Message} {stop : Arrival Node}
    {hops : List (Hop Node)} {consumed : ℕ} {goHere : BitVec 64}
    (travels : net.Travels ⟨router, 1, packet⟩ hops consumed stop)
    (terminator : Word.low (64 - consumed) (Headers.messageLabel stop.message) = 1)
    (fits : LabelSplicer.splice goHere (Headers.messageLabel packet) ≠ BitVec.allOnes 64)
    (long : Headers.SwitchHeader_SIZE ≤ spliced.length)
    (label : Headers.messageLabel spliced =
      LabelSplicer.splice goHere (Headers.messageLabel packet)) :
    net.Reaches (fun last => last.node = stop.node ∧ last.iface = stop.iface ∧
        Word.low (Bits.log2x64 goHere + 1) (Headers.messageLabel last.message) = goHere)
      ⟨router, 1, spliced⟩ hops := by
  have left : (Headers.messageLabel stop.message).toNat % 2 ^ (64 - consumed) = 1 := by
    rw [← Word.toNat_low, terminator]
    rfl
  have within : consumed < 64 := by
    by_contra large
    rw [Nat.sub_eq_zero_of_le (by omega), Nat.pow_zero, Nat.mod_one] at left
    omega
  rw [travels.label_mod (by omega)] at left
  have log2ViaHere := log2x64_of_consumed within left
  have via : Headers.messageLabel packet ≠ 0 := by
    intro zero
    rw [zero] at left
    simp at left
  have short : Bits.log2x64 goHere + consumed ≤ 60 := by
    by_contra large
    exact fits (LabelSplicer.splice_of_too_big (by rw [log2ViaHere]; omega))
  have value : (LabelSplicer.splice goHere (Headers.messageLabel packet)).toNat = _ :=
    LabelSplicer.toNat_splice via (by rw [log2ViaHere]; exact short)
  rw [← label, log2ViaHere] at value
  have remainder := Nat.mod_lt (Headers.messageLabel packet).toNat (Nat.two_pow_pos consumed)
  refine (travels.reaches_of_agree within.le long ?_).mono ?_
  · rw [value, Nat.mul_comm, Nat.mul_add_mod, Nat.mod_mod]
  · intro last ⟨node, iface, low⟩
    refine ⟨node, iface, BitVec.eq_of_toNat_eq ?_⟩
    rw [Word.toNat_low, low _ (by omega), value, Nat.mul_comm, Nat.mul_add_div (Nat.two_pow_pos _),
      Nat.div_eq_of_lt remainder, Nat.add_zero,
      Nat.mod_eq_of_lt (Bits.toNat_lt_two_pow_log2x64 goHere)]

/--
Splicing is path composition: a packet with a spliced label takes the way and
arrives with the label that was spliced on. Splicing is associative, and 1 is
neutral for labels of at most 61 bits.
-/
theorem splice_composes (net : Network Node) :
    (∀ {router : Node} {packet spliced : Message} {stop : Arrival Node} {hops : List (Hop Node)}
      {consumed : ℕ} {goHere : BitVec 64},
      net.Travels ⟨router, 1, packet⟩ hops consumed stop →
      Word.low (64 - consumed) (Headers.messageLabel stop.message) = 1 →
      LabelSplicer.splice goHere (Headers.messageLabel packet) ≠ BitVec.allOnes 64 →
      Headers.SwitchHeader_SIZE ≤ spliced.length →
      Headers.messageLabel spliced = LabelSplicer.splice goHere (Headers.messageLabel packet) →
      net.Reaches (fun last => last.node = stop.node ∧ last.iface = stop.iface ∧
          Word.low (Bits.log2x64 goHere + 1) (Headers.messageLabel last.message) = goHere)
        ⟨router, 1, spliced⟩ hops) ∧
      (∀ {first second third : BitVec 64}, first ≠ 0 → second ≠ 0 → third ≠ 0 →
        LabelSplicer.splice first (LabelSplicer.splice second third) =
          LabelSplicer.splice (LabelSplicer.splice first second) third) ∧
      ∀ {label : BitVec 64}, label.toNat < 2 ^ 61 →
        LabelSplicer.splice 1 label = label ∧ LabelSplicer.splice label 1 = label := by
  refine ⟨Travels.reaches_splice, LabelSplicer.splice_assoc, fun {label} short => ?_⟩
  have fits : Bits.log2x64 label ≤ 60 := by
    by_cases zero : label = 0
    · subst zero
      decide
    · have below : Bits.log2x64 label < 61 := (Bits.log2x64_lt zero).mpr short
      omega
  exact ⟨LabelSplicer.splice_one_left fits, LabelSplicer.splice_one_right fits⟩

/-- In the pair, a label spliced onto 0x15 arrives at the other switch. -/
theorem splice_composes_pair :
    pair.Reaches (fun last => last.node = true ∧ last.iface = 2 ∧
        Word.low (Bits.log2x64 0x17 + 1) (Headers.messageLabel last.message) = 0x17)
      ⟨false, 1, Headers.bareHeader (LabelSplicer.splice 0x17 0x15)⟩ [⟨false, 1, 2⟩] := by
  refine (splice_composes pair).1 pair_travels ?_ ?_ le_rfl ?_
  · rw [SwitchCore.messageLabel_relabelled]
    decide
  · rw [Headers.messageLabel_bareHeader]
    decide
  · rw [Headers.messageLabel_bareHeader, Headers.messageLabel_bareHeader]

/-- A label of 62 bits is not spliced at all, not even onto the label 1. -/
theorem splice_one_too_big :
    ¬ ∀ label : BitVec 64, label ≠ 0 → LabelSplicer.splice 1 label = label :=
  fun neutral => absurd (neutral 0x2000000000000000 (by decide)) (by decide)

end Network

end Cjdns
