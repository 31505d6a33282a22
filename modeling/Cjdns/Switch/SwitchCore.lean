import Cjdns.Switch.NumberCompress
import Cjdns.Util.Checksum
import Cjdns.Wire.Headers

/-!
# The switch

`receiveMessage` of `SwitchCore.c` is split at the point where it has decided:
`route` is the decision, a function of the label alone, and `handle` carries it
out on the message in memory. A refused message is turned into an error packet
by `sendError`.

The decision is described by `Exchange`: a switch takes the discriminator of
the destination off the low end of the label and writes the discriminator of
the source, in the same width and reversed, at the high end.
-/

namespace Cjdns

open NumberCompress (INTERFACES)

/-- `struct SwitchInterface`; a slot without an interface is vacant. -/
structure SwitchInterface where
  iface : Option ℕ
  buffer : ℤ
  bufferMax : ℤ

/-- `struct SwitchCore` -/
structure SwitchCore where
  interfaces : Fin INTERFACES → SwitchInterface
  interfaceCount : BitVec 32
  routerAdded : Bool

namespace SwitchInterface

/-- The slot holds an interface. -/
def Live (switchIf : SwitchInterface) : Prop :=
  switchIf.iface ≠ none

instance (switchIf : SwitchInterface) : Decidable switchIf.Live :=
  inferInstanceAs (Decidable (switchIf.iface ≠ none))

end SwitchInterface

namespace SwitchCore

/-! ## The decision -/

/-- What `receiveMessage` decides from the label. -/
inductive Verdict where
  | malformed
  | forward (destIndex : Fin INTERFACES) (targetLabel : BitVec 64)
  deriving DecidableEq

/--
The width in which the source is written, where the width read from the label
does not have to be enough. There is none if the source cannot be represented.
-/
def representableBits (sourceIndex destIndex : Fin INTERFACES) (sourceBits bits : ℕ)
    (label : BitVec 64) : Option ℕ :=
  if sourceBits > bits then
    if destIndex = 1 then
      -- enough zeros after the terminating 0001 leave room for the wider source discriminator
      if 0 ≠ (label ^^^ 1) &&& (BitVec.allOnes 64 >>> (64 - sourceBits)) then none
      else some sourceBits
    else if 1 = sourceIndex then
      if 0 ≠ label >>> (bits + 64 - sourceBits) then none else some bits
    else none
  else some bits

/-- The part of `receiveMessage` that works on the label. -/
def route (core : SwitchCore) (sourceIndex : Fin INTERFACES) (label : BitVec 64) : Verdict :=
  let bits := NumberCompress.bitsUsedForLabel label
  let destIndex : Fin INTERFACES :=
    ⟨NumberCompress.getDecompressed label bits, NumberCompress.getDecompressed_lt label bits⟩
  let sourceBits := NumberCompress.bitsUsedForNumber sourceIndex
  if destIndex = 1 ∧ 1 ≠ label &&& 0xf then .malformed
  else
    match representableBits sourceIndex destIndex sourceBits bits label with
    | none => .malformed
    | some bits =>
        if (core.interfaces destIndex).iface = none then .malformed
        else
          let sourceLabel := Bits.bitReverse64 (NumberCompress.getCompressed sourceIndex bits)
          .forward destIndex ((label >>> bits) ||| sourceLabel)

/-! ## Messages -/

/-- The start of `sendMessage`: a flooded interface takes the packet without its priority. -/
def meter (switchIf : SwitchInterface) (toSend : Message) : Message :=
  let switchHeader := toSend.bytes
  let priority := Headers.getPriority toSend.memory switchHeader
  if switchIf.buffer + priority.toNat > switchIf.bufferMax then
    let messageType := Headers.getMessageType toSend.memory switchHeader
    { toSend with
      memory := Headers.setPriorityAndMessageType toSend.memory switchHeader 0 messageType }
  else toSend

/--
`sendMessage`: the message that is handed to the interface, the answer of the
interface, and the message as the interface leaves it.
-/
def sendMessage (switchIf : SwitchInterface) (send : Message → BitVec 8 × Message)
    (toSend : Message) : Message × BitVec 8 × Message :=
  let handed := meter switchIf toSend
  (handed, send handed)

/--
The assignments of `sendError` to the headers of the error packet at `err`,
before the checksum is computed; `header` is the header of the cause.
-/
def writeErrorPacket (memory : Memory) (err header : ℤ) (code : BitVec 32) : Memory :=
  let ctrl := err + Headers.SwitchHeader_SIZE
  let memory := Headers.setLabel_be memory err
    (Bits.bitReverse64 (Headers.label_be memory header))
  let memory := Headers.setPriorityAndMessageType memory err (Headers.getPriority memory header)
    Headers.SwitchHeader_TYPE_CONTROL
  let memory := Control.setType_be memory ctrl Control.ERROR_be
  let memory := Control.setErrorType_be memory ctrl (Endian.hostToBigEndian32 code)
  Control.setChecksum_be memory ctrl 0

/--
`sendError`: the error packet that is handed to the interface, if there is one.
There is no result where an assertion fails.
-/
def sendError (iface : SwitchInterface) (cause : Message) (code : BitVec 32) :
    Option (Option Message) :=
  let header := cause.bytes
  if Headers.getMessageType cause.memory header = Headers.SwitchHeader_TYPE_CONTROL ∧
      Control.type_be cause.memory (header + Headers.SwitchHeader_SIZE) = Control.ERROR_be then
    -- errors never cause other errors to be sent
    some none
  else
    let cause := { cause with
      length :=
        if cause.length < Control.Error_MAX_SIZE then cause.length else Control.Error_MAX_SIZE }
    (cause.shift
        (Headers.SwitchHeader_SIZE + Control.HEADER_SIZE + Control.Error_HEADER_SIZE)).bind
      fun cause =>
        let err := cause.bytes
        let ctrl := err + Headers.SwitchHeader_SIZE
        let memory := writeErrorPacket cause.memory err header code
        -- the assertion of `Checksum_engine`
        if ctrl % 2 = 0 then
          let memory := Control.setChecksum_be memory ctrl
            (Checksum.engine memory ctrl (BitVec.ofNat 16 (cause.length - Headers.SwitchHeader_SIZE)))
          some (some (meter iface { cause with memory }))
        else none

/-- What becomes of a message in `receiveMessage`, up to the call of `sendError`. -/
inductive Handled where
  /-- nothing is sent -/
  | dropped
  /-- an interface has taken the message -/
  | forwarded (destIndex : Fin INTERFACES) (handed : Message)
  /-- `sendError` is called, possibly after an interface has returned an error -/
  | refused (tried : Option (Fin INTERFACES × Message)) (code : BitVec 8) (cause : Message)

/-- `receiveMessage`, up to the call of `sendError` -/
def handle (core : SwitchCore) (send : Fin INTERFACES → Message → BitVec 8 × Message)
    (sourceIndex : Fin INTERFACES) (message : Message) : Handled :=
  let sourceIf := core.interfaces sourceIndex
  if sourceIf.buffer > sourceIf.bufferMax then .dropped
  else if message.length < Headers.SwitchHeader_SIZE then .dropped
  else
    let header := message.bytes
    let label := Endian.bigEndianToHost64 (Headers.label_be message.memory header)
    match route core sourceIndex label with
    | .malformed => .refused none Error.MALFORMED_ADDRESS message
    | .forward destIndex targetLabel =>
        let message := { message with
          memory := Headers.setLabel_be message.memory header
            (Endian.hostToBigEndian64 targetLabel) }
        let (handed, err, left) :=
          sendMessage (core.interfaces destIndex) (send destIndex) message
        if err ≠ Error.NONE then
          .refused (some (destIndex, handed)) err { left with
            memory := Headers.setLabel_be left.memory header (Endian.bigEndianToHost64 label) }
        else .forwarded destIndex handed

/-- A message that `receiveMessage` hands to an interface. -/
inductive Sent where
  /-- the packet on its way -/
  | forwarded (destIndex : Fin INTERFACES) (message : Message)
  /-- an error packet on its way back -/
  | answered (sourceIndex : Fin INTERFACES) (message : Message)

/--
`receiveMessage`: the messages handed to interfaces, in order. It returns
`Error_NONE` on every path.
-/
def receiveMessage (core : SwitchCore) (send : Fin INTERFACES → Message → BitVec 8 × Message)
    (sourceIndex : Fin INTERFACES) (message : Message) : Option (List Sent) :=
  match handle core send sourceIndex message with
  | .dropped => some []
  | .forwarded destIndex handed => some [.forwarded destIndex handed]
  | .refused tried code cause =>
      (sendError (core.interfaces sourceIndex) cause (code.setWidth 32)).map fun answer =>
        tried.toList.map (fun forward => .forwarded forward.1 forward.2) ++
          answer.toList.map (.answered sourceIndex)

/-! ## The exchange of discriminators -/

/--
A label loses the discriminator of the destination at its low end and gains the
reversed discriminator of the source, in the same width, at its high end.
-/
structure Exchange (sourceIndex destIndex : Fin INTERFACES) (bits : ℕ)
    (label targetLabel : BitVec 64) : Prop where
  width : NumberCompress.IsWidth bits
  sourceFits : NumberCompress.bitsUsedForNumber sourceIndex ≤ bits
  destFits : NumberCompress.bitsUsedForNumber destIndex ≤ bits
  starts : Word.low bits label = NumberCompress.getCompressed destIndex bits
  target_eq : targetLabel = (label >>> bits) |||
    Bits.bitReverse64 (NumberCompress.getCompressed sourceIndex bits)

namespace Exchange

variable {sourceIndex destIndex : Fin INTERFACES} {bits : ℕ} {label targetLabel : BitVec 64}

/-- The reversed label after an exchange starts with the discriminator of the source. -/
theorem low_reverse_target (exchange : Exchange sourceIndex destIndex bits label targetLabel) :
    Word.low bits (Bits.bitReverse64 targetLabel) =
      NumberCompress.getCompressed sourceIndex bits := by
  have small := NumberCompress.toNat_getCompressed_lt exchange.width sourceIndex.isLt
    exchange.sourceFits
  apply BitVec.eq_of_getLsbD_eq
  intro index inside
  rw [exchange.target_eq, Bits.bitReverse64_eq_reverse, Word.reverse_or,
    ← Bits.bitReverse64_eq_reverse (Bits.bitReverse64 _), Bits.bitReverse64_bitReverse64,
    Word.reverse_ushiftRight, Word.getLsbD_low, BitVec.getLsbD_or, BitVec.getLsbD_shiftLeft]
  by_cases below : index < bits
  · simp [below]
  · have high : (NumberCompress.getCompressed sourceIndex bits).getLsbD index = false := by
      rw [← BitVec.testBit_toNat]
      exact Nat.testBit_lt_two_pow
        (lt_of_lt_of_le small (Nat.pow_le_pow_right (by omega) (by omega)))
    simp [below, high]

/-- On the way back the switch undoes the exchange. -/
theorem symm (exchange : Exchange sourceIndex destIndex bits label targetLabel) :
    Exchange destIndex sourceIndex bits (Bits.bitReverse64 targetLabel)
      (Bits.bitReverse64 label) where
  width := exchange.width
  sourceFits := exchange.destFits
  destFits := exchange.sourceFits
  starts := exchange.low_reverse_target
  target_eq := by
    have small := NumberCompress.toNat_getCompressed_lt exchange.width sourceIndex.isLt
      exchange.sourceFits
    have code : NumberCompress.getCompressed sourceIndex bits >>> bits = 0#64 :=
      Word.ushiftRight_eq_zero_of_lt small
    have restored := Word.shiftLeft_ushiftRight_or_reverse_low label.reverse bits
    rw [BitVec.reverse_reverse_eq, exchange.starts] at restored
    rw [exchange.target_eq]
    simp only [Bits.bitReverse64_eq_reverse, Word.reverse_or, BitVec.reverse_reverse_eq,
      Word.reverse_ushiftRight, BitVec.ushiftRight_or_distrib, code, BitVec.or_zero]
    exact restored.symm

end Exchange

section Route

variable {core : SwitchCore} {sourceIndex destIndex : Fin INTERFACES}
  {label targetLabel : BitVec 64}

/-- The width of the source discriminator when the message is for the router. -/
theorem representableBits_router {sourceBits bits : ℕ} (four : bits = 4)
    (sourceWidth : NumberCompress.IsWidth sourceBits) (router : label.toNat % 16 = 1) :
    representableBits sourceIndex 1 sourceBits bits label =
      if label.toNat % 2 ^ sourceBits = 1 then some sourceBits else none := by
  subst four
  by_cases wider : sourceBits > 4
  · have mask : BitVec.allOnes 64 >>> (64 - sourceBits) =
        BitVec.ofNat 64 (2 ^ sourceBits - 1) := by
      rcases sourceWidth with rfl | rfl | rfl <;> decide
    have zeros : 0 = (label ^^^ 1) &&& (BitVec.allOnes 64 >>> (64 - sourceBits)) ↔
        label.toNat % 2 ^ sourceBits = 1 := by
      have one : (1 : ℕ) = 1 % 2 ^ sourceBits :=
        (Nat.mod_eq_of_lt (Nat.one_lt_two_pow (by omega))).symm
      rw [mask, ← BitVec.toNat_inj, Word.toNat_and_mask _ (by
        rcases sourceWidth with rfl | rfl | rfl <;> omega)]
      rw [BitVec.toNat_xor, Nat.xor_mod_two_pow, show (1 : BitVec 64).toNat = 1 from rfl, ← one]
      rw [show (0 : BitVec 64).toNat = 0 from rfl, eq_comm, Nat.xor_eq_zero_iff]
    simp only [representableBits, if_pos wider, if_true, ne_eq, zeros, ite_not]
  · have four : sourceBits = 4 := by
      rcases sourceWidth with rfl | rfl | rfl <;> omega
    subst four
    simp [representableBits, router]

theorem representableBits_peer {sourceBits bits : ℕ} (peer : destIndex ≠ 1)
    (routerFits : (1 : Fin INTERFACES) = sourceIndex → sourceBits ≤ bits) :
    representableBits sourceIndex destIndex sourceBits bits label =
      if sourceBits ≤ bits then some bits else none := by
  by_cases wider : sourceBits > bits
  · have notRouter : (1 : Fin INTERFACES) ≠ sourceIndex := fun router => by
      have := routerFits router
      omega
    simp [representableBits, wider, peer, notRouter]
  · simp [representableBits, wider, Nat.le_of_not_lt wider]

theorem routerFits (bits : ℕ) (width : NumberCompress.IsWidth bits)
    (router : (1 : Fin INTERFACES) = sourceIndex) :
    NumberCompress.bitsUsedForNumber sourceIndex ≤ bits := by
  subst router
  rcases width with rfl | rfl | rfl <;> decide

/-- The decision about a label whose first discriminator is not the router's. -/
theorem route_peer
    (decodes : NumberCompress.getDecompressed label (NumberCompress.bitsUsedForLabel label) =
      destIndex) (peer : destIndex ≠ 1) :
    core.route sourceIndex label =
      if NumberCompress.bitsUsedForNumber sourceIndex ≤ NumberCompress.bitsUsedForLabel label ∧
          (core.interfaces destIndex).Live then
        .forward destIndex ((label >>> NumberCompress.bitsUsedForLabel label) |||
          Bits.bitReverse64 (NumberCompress.getCompressed sourceIndex
            (NumberCompress.bitsUsedForLabel label)))
      else .malformed := by
  simp only [route, decodes, Fin.eta, peer, false_and, if_false]
  rw [representableBits_peer peer (routerFits _ (NumberCompress.isWidth_bitsUsedForLabel label))]
  by_cases fits : NumberCompress.bitsUsedForNumber sourceIndex ≤
      NumberCompress.bitsUsedForLabel label
  · by_cases vacant : (core.interfaces destIndex).iface = none <;>
      simp [fits, SwitchInterface.Live, vacant]
  · simp [fits]

/--
The decision about a label whose first discriminator is the router's: the width
is the one of the source, and the label has to have zeros enough.
-/
theorem route_router (decodes : label.toNat % 16 = 1) :
    core.route sourceIndex label =
      if label.toNat % 2 ^ NumberCompress.bitsUsedForNumber sourceIndex = 1 ∧
          (core.interfaces 1).Live then
        .forward 1 ((label >>> NumberCompress.bitsUsedForNumber sourceIndex) |||
          Bits.bitReverse64 (NumberCompress.getCompressed sourceIndex
            (NumberCompress.bitsUsedForNumber sourceIndex)))
      else .malformed := by
  have number := (NumberCompress.getDecompressed_eq_one_iff label).mpr decodes
  have dest : (⟨NumberCompress.getDecompressed label (NumberCompress.bitsUsedForLabel label),
      NumberCompress.getDecompressed_lt _ _⟩ : Fin INTERFACES) = 1 := Fin.ext number
  have nibble : ¬ (1 ≠ label &&& 0xf) := by
    rw [not_not, ← BitVec.toNat_inj, show (0xf : BitVec 64) = BitVec.ofNat 64 (2 ^ 4 - 1) from rfl,
      Word.toNat_and_mask 4 (by omega)]
    exact decodes.symm
  simp only [route, dest, nibble, and_false, if_false]
  rw [representableBits_router (NumberCompress.bitsUsedForLabel_of_router decodes)
    (NumberCompress.isWidth_bitsUsedForNumber _) decodes]
  by_cases zeros : label.toNat % 2 ^ NumberCompress.bitsUsedForNumber sourceIndex = 1
  · by_cases vacant : (core.interfaces 1).iface = none <;>
      simp [zeros, SwitchInterface.Live, vacant]
  · simp [zeros]

theorem forward_of_ite {condition : Prop} [Decidable condition] {dest other : Fin INTERFACES}
    {label target : BitVec 64}
    (same : (if condition then Verdict.forward dest label else .malformed) =
      .forward other target) : condition ∧ dest = other ∧ label = target := by
  split_ifs at same with holds
  exact ⟨holds, Verdict.forward.inj same⟩

/-- A message that is forwarded gets its discriminators exchanged. -/
theorem exists_exchange_of_route
    (forwards : core.route sourceIndex label = .forward destIndex targetLabel) :
    (core.interfaces destIndex).Live ∧
      ∃ bits, Exchange sourceIndex destIndex bits label targetLabel ∧
        (destIndex ≠ 1 → bits = NumberCompress.bitsUsedForLabel label) := by
  by_cases router : label.toNat % 16 = 1
  · rw [route_router router] at forwards
    obtain ⟨⟨zeros, live⟩, rfl, rfl⟩ := forward_of_ite forwards
    refine ⟨live, NumberCompress.bitsUsedForNumber sourceIndex, ?_, fun peer => absurd rfl peer⟩
    exact {
      width := NumberCompress.isWidth_bitsUsedForNumber _
      sourceFits := le_rfl
      destFits := routerFits _ (NumberCompress.isWidth_bitsUsedForNumber _) rfl
      starts := by
        apply BitVec.eq_of_toNat_eq
        rw [Word.toNat_low, zeros]
        rfl
      target_eq := rfl }
  · obtain ⟨dest, decodes⟩ : ∃ dest : Fin INTERFACES,
        NumberCompress.getDecompressed label (NumberCompress.bitsUsedForLabel label) = dest :=
      ⟨⟨_, NumberCompress.getDecompressed_lt _ _⟩, rfl⟩
    have peer : dest ≠ 1 := by
      rintro rfl
      exact router ((NumberCompress.getDecompressed_eq_one_iff label).mp decodes)
    rw [route_peer decodes peer] at forwards
    obtain ⟨⟨fits, live⟩, rfl, rfl⟩ := forward_of_ite forwards
    refine ⟨live, NumberCompress.bitsUsedForLabel label, ?_, fun _ => rfl⟩
    exact {
      width := NumberCompress.isWidth_bitsUsedForLabel label
      sourceFits := fits
      destFits := by
        rw [← decodes]
        exact NumberCompress.bitsUsedForNumber_getDecompressed_le label
          (NumberCompress.isWidth_bitsUsedForLabel label)
      starts := by rw [← decodes, NumberCompress.getCompressed_getDecompressed]
      target_eq := rfl }

/-- An exchange towards a peer is accepted. -/
theorem route_of_exchange {bits : ℕ}
    (exchange : Exchange sourceIndex destIndex bits label targetLabel)
    (live : (core.interfaces destIndex).Live) (peer : destIndex ≠ 1) :
    core.route sourceIndex label = .forward destIndex targetLabel := by
  have notOne : (destIndex : ℕ) ≠ 1 := fun one => peer (Fin.ext one)
  obtain ⟨width, decodes⟩ := NumberCompress.decode_of_low_eq exchange.width destIndex.isLt
    exchange.destFits notOne exchange.starts
  rw [← width] at decodes
  rw [route_peer decodes peer, width, if_pos ⟨exchange.sourceFits, live⟩, exchange.target_eq]

/-- An exchange towards the router is accepted, in the width of the source. -/
theorem route_of_exchange_router {bits : ℕ}
    (exchange : Exchange sourceIndex 1 bits label targetLabel)
    (live : (core.interfaces 1).Live) :
    ∃ routerLabel, core.route sourceIndex label = .forward 1 routerLabel := by
  have starts : label.toNat % 2 ^ bits = 1 := by
    rw [← Word.toNat_low, exchange.starts]
    rfl
  have narrower {width : ℕ} (le : width ≤ bits) (positive : 0 < width) :
      label.toNat % 2 ^ width = 1 := by
    rw [← Nat.mod_mod_of_dvd _ (Nat.pow_dvd_pow 2 le), starts,
      Nat.mod_eq_of_lt (Nat.one_lt_two_pow (by omega))]
  have four : 4 ≤ bits := routerFits bits exchange.width rfl
  have positive : 0 < NumberCompress.bitsUsedForNumber sourceIndex := by
    rcases NumberCompress.isWidth_bitsUsedForNumber sourceIndex with width | width | width <;>
      omega
  rw [route_router (narrower four (by omega)),
    if_pos ⟨narrower exchange.sourceFits positive, live⟩]
  exact ⟨_, rfl⟩

end Route

/-! ## The decision carried out -/

section Messages

variable {core : SwitchCore} {send : Fin INTERFACES → Message → BitVec 8 × Message}
  {sourceIndex destIndex : Fin INTERFACES} {message handed cause : Message}

@[simp]
theorem length_meter (switchIf : SwitchInterface) (toSend : Message) :
    (meter switchIf toSend).length = toSend.length := by
  simp only [meter]
  split_ifs <;> rfl

@[simp]
theorem bytes_meter (switchIf : SwitchInterface) (toSend : Message) :
    (meter switchIf toSend).bytes = toSend.bytes := by
  simp only [meter]
  split_ifs <;> rfl

@[simp]
theorem messageLabel_meter (switchIf : SwitchInterface) (toSend : Message) :
    Headers.messageLabel (meter switchIf toSend) = Headers.messageLabel toSend := by
  simp only [Headers.messageLabel, meter]
  split_ifs
  · exact Headers.label_setPriorityAndMessageType ..
  · rfl

/-- The message as it is handed to the destination that was decided on. -/
def relabelled (core : SwitchCore) (destIndex : Fin INTERFACES) (targetLabel : BitVec 64)
    (message : Message) : Message :=
  meter (core.interfaces destIndex) { message with
    memory := Headers.setLabel_be message.memory message.bytes
      (Endian.hostToBigEndian64 targetLabel) }

@[simp]
theorem messageLabel_relabelled (targetLabel : BitVec 64) :
    Headers.messageLabel (core.relabelled destIndex targetLabel message) = targetLabel := by
  rw [relabelled, messageLabel_meter]
  exact Headers.label_setLabel_be ..

@[simp]
theorem length_relabelled (targetLabel : BitVec 64) :
    (core.relabelled destIndex targetLabel message).length = message.length := by
  simp [relabelled]

/-- The three outcomes of a message that is neither flooding nor a runt. -/
theorem handle_eq
    (metered : (core.interfaces sourceIndex).buffer ≤ (core.interfaces sourceIndex).bufferMax)
    (long : Headers.SwitchHeader_SIZE ≤ message.length) :
    core.handle send sourceIndex message =
      match core.route sourceIndex (Headers.messageLabel message) with
      | .malformed => .refused none Error.MALFORMED_ADDRESS message
      | .forward destIndex targetLabel =>
          let handed := core.relabelled destIndex targetLabel message
          if (send destIndex handed).1 ≠ Error.NONE then
            .refused (some (destIndex, handed)) (send destIndex handed).1
              { (send destIndex handed).2 with
                memory := Headers.setLabel_be (send destIndex handed).2.memory message.bytes
                  (Endian.bigEndianToHost64 (Headers.messageLabel message)) }
          else .forwarded destIndex handed := by
  rw [handle]
  simp only [gt_iff_lt, not_lt.mpr metered, not_lt.mpr long, if_false]
  rfl

/-- A message that is not dropped has passed the checks on its source and on its length. -/
theorem metered_long_of_handle (handles : core.handle send sourceIndex message ≠ .dropped) :
    (core.interfaces sourceIndex).buffer ≤ (core.interfaces sourceIndex).bufferMax ∧
      Headers.SwitchHeader_SIZE ≤ message.length := by
  rw [handle] at handles
  by_cases flooding : (core.interfaces sourceIndex).buffer > (core.interfaces sourceIndex).bufferMax
  · simp [flooding] at handles
  · by_cases runt : message.length < Headers.SwitchHeader_SIZE
    · simp [flooding, runt] at handles
    · exact ⟨not_lt.mp flooding, not_lt.mp runt⟩

/-- What the decision was when a message has been handed to an interface. -/
theorem route_of_receiveMessage
    (receives : core.receiveMessage send sourceIndex message = some [.forwarded destIndex handed]) :
    (Headers.SwitchHeader_SIZE ≤ message.length ∧ handed.length = message.length) ∧
      core.route sourceIndex (Headers.messageLabel message) =
        .forward destIndex (Headers.messageLabel handed) := by
  have notDropped : core.handle send sourceIndex message ≠ .dropped := by
    intro dropped
    simp [receiveMessage, dropped] at receives
  obtain ⟨metered, long⟩ := metered_long_of_handle notDropped
  rw [receiveMessage, handle_eq metered long] at receives
  cases verdict : core.route sourceIndex (Headers.messageLabel message) with
  | malformed =>
      simp [verdict, List.map_eq_cons_iff] at receives
  | forward dest targetLabel =>
      simp only [verdict] at receives
      by_cases err : (send dest (core.relabelled dest targetLabel message)).1 ≠ Error.NONE
      · simp only [if_pos err, Option.toList_some, List.map_cons, List.map_nil,
          List.cons_append, List.nil_append, Option.map_eq_some_iff, List.cons.injEq,
          Sent.forwarded.injEq] at receives
        obtain ⟨_, _, ⟨rfl, rfl⟩, _⟩ := receives
        exact ⟨⟨long, length_relabelled _⟩, by rw [messageLabel_relabelled]⟩
      · simp only [if_neg err, Option.some.injEq, List.cons.injEq, Sent.forwarded.injEq,
          and_true] at receives
        obtain ⟨rfl, rfl⟩ := receives
        exact ⟨⟨long, length_relabelled _⟩, by rw [messageLabel_relabelled]⟩

/-- An interface that takes every packet. -/
def accepting : Fin INTERFACES → Message → BitVec 8 × Message :=
  fun _ handed => (Error.NONE, handed)

/-- A message whose label is accepted is handed to the destination. -/
theorem receiveMessage_of_route {targetLabel : BitVec 64}
    (metered : (core.interfaces sourceIndex).buffer ≤ (core.interfaces sourceIndex).bufferMax)
    (long : Headers.SwitchHeader_SIZE ≤ message.length)
    (forwards : core.route sourceIndex (Headers.messageLabel message) =
      .forward destIndex targetLabel) :
    core.receiveMessage accepting sourceIndex message =
      some [.forwarded destIndex (core.relabelled destIndex targetLabel message)] := by
  rw [receiveMessage, handle_eq metered long]
  simp [forwards, accepting]

/-- The packet that `sendError` is called on carries the label with which it arrived. -/
theorem label_of_refused {tried : Option (Fin INTERFACES × Message)} {code : BitVec 8}
    (refuses : core.handle send sourceIndex message = .refused tried code cause) :
    Headers.label cause.memory message.bytes = Headers.messageLabel message := by
  have notDropped : core.handle send sourceIndex message ≠ .dropped := by
    simp [refuses]
  obtain ⟨metered, long⟩ := metered_long_of_handle notDropped
  rw [handle_eq metered long] at refuses
  cases verdict : core.route sourceIndex (Headers.messageLabel message) with
  | malformed =>
      simp only [verdict, Handled.refused.injEq] at refuses
      rw [← refuses.2.2]
      rfl
  | forward dest targetLabel =>
      simp only [verdict] at refuses
      split_ifs at refuses with err
      simp only [Handled.refused.injEq] at refuses
      rw [← refuses.2.2]
      exact Headers.label_setLabel_be ..

end Messages

end SwitchCore

end Cjdns
