import Cjdns.Net.DefaultInterfaceController
import Cjdns.Net.SwitchLayer
import Cjdns.Switch.SwitchCore

/-!
# Error packets

The switch quotes the packet that caused an error from the buffer in which it
has been sent on. A peer's `sendFromSwitch` puts the start of the packet back
before it reports an error. `incomingFromSwitch` does not: it has taken headers
off, so that the quotation begins in the middle of the packet. Nor does the
switch restore the priority that it clears for a flooded interface.
-/

namespace Cjdns

open NumberCompress (INTERFACES)

namespace Headers

/-- The low bits of the header are read from the third word of a message. -/
theorem lowBits_be_eq_of_read_eq {left right : Memory} {leftHeader rightHeader : ℤ}
    (same : left.read leftHeader SwitchHeader_SIZE = right.read rightHeader SwitchHeader_SIZE) :
    lowBits_be left leftHeader = lowBits_be right rightHeader := by
  rw [show SwitchHeader_SIZE = 8 + 4 from rfl, Memory.read_add, Memory.read_add] at same
  exact Memory.load_eq_of_read_eq 4 (List.append_inj same (by simp)).2 (by norm_num)

theorem label_store_disjoint (memory : Memory) {header place : ℤ} {width : ℕ}
    {word : BitVec width} (disjoint : header + 8 ≤ place ∨ place + width / 8 ≤ header) :
    label (memory.store place word) header = label memory header := by
  rw [label, label, label_be, label_be, Memory.load_store_disjoint _ (by omega)]

theorem label_setChecksum_be (memory : Memory) (header : ℤ) (checksum : BitVec 16) :
    label (Control.setChecksum_be memory (header + SwitchHeader_SIZE) checksum) header =
      label memory header :=
  label_store_disjoint memory (Or.inl (by change header + 8 ≤ header + 12; omega))

theorem setChecksum_be_outside (memory : Memory) {ctrl place : ℤ} (checksum : BitVec 16)
    (outside : ctrl + 2 ≤ place) : Control.setChecksum_be memory ctrl checksum place = memory place :=
  Memory.store_outside memory (Or.inr (by omega))

end Headers

namespace SwitchCore

/-- The content of an error packet in front of the packet that it quotes. -/
abbrev quoteOffset : ℕ :=
  Headers.SwitchHeader_SIZE + Control.HEADER_SIZE + Control.Error_HEADER_SIZE

theorem memory_meter_outside {switchIf : SwitchInterface} {toSend : Message} {place : ℤ}
    (outside : toSend.bytes + Headers.SwitchHeader_SIZE ≤ place) :
    (meter switchIf toSend).memory place = toSend.memory place := by
  change toSend.bytes + 12 ≤ place at outside
  simp only [meter]
  split_ifs
  · exact Memory.store_outside _ (Or.inr (by omega))
  · rfl

/-- The label of an error packet is the reversal of the label of the header it is made from. -/
theorem label_writeErrorPacket (memory : Memory) (err header : ℤ) (code : BitVec 32) :
    Headers.label (writeErrorPacket memory err header code) err =
      Bits.bitReverse64 (Headers.label memory header) := by
  simp only [writeErrorPacket, Control.setChecksum_be, Control.setErrorType_be, Control.setType_be,
    Headers.SwitchHeader_SIZE]
  rw [Headers.label_store_disjoint _ (by omega), Headers.label_store_disjoint _ (by omega),
    Headers.label_store_disjoint _ (by omega), Headers.label_setPriorityAndMessageType,
    Headers.label, Headers.label_be, Headers.setLabel_be, Memory.load_store _ _ _ (by norm_num)]
  exact (Endian.bitReverse64_byteSwap64 _).symm

theorem writeErrorPacket_outside (memory : Memory) {err header place : ℤ} (code : BitVec 32)
    (outside : err + quoteOffset ≤ place) :
    writeErrorPacket memory err header code place = memory place := by
  change err + 20 ≤ place at outside
  simp only [writeErrorPacket, Control.setChecksum_be, Control.setErrorType_be, Control.setType_be,
    Headers.setPriorityAndMessageType, Headers.setLabel_be, Headers.SwitchHeader_SIZE]
  rw [Memory.store_outside _ (by omega), Memory.store_outside _ (by omega),
    Memory.store_outside _ (by omega), Memory.store_outside _ (by omega),
    Memory.store_outside _ (by omega)]

/-- The inversion of `sendError`: how the error packet is made from the cause. -/
theorem sendError_cases {iface : SwitchInterface} {cause error : Message} {code : BitVec 32}
    (sends : sendError iface cause code = some (some error)) :
    ∃ checksum padding, error = meter iface
      { memory := Control.setChecksum_be
          (writeErrorPacket cause.memory (cause.bytes - quoteOffset) cause.bytes code)
          (cause.bytes - quoteOffset + Headers.SwitchHeader_SIZE) checksum
        bytes := cause.bytes - quoteOffset
        length := quoteOffset + min cause.length Control.Error_MAX_SIZE
        padding := padding } := by
  have short : (if cause.length < Control.Error_MAX_SIZE then cause.length
      else Control.Error_MAX_SIZE) = min cause.length Control.Error_MAX_SIZE := by
    split_ifs <;> omega
  simp only [sendError, short] at sends
  split_ifs at sends with isError
  · cases sends
  rw [Option.bind_eq_some_iff] at sends
  obtain ⟨⟨memory, length, padding, bytes⟩, shifts, sends⟩ := sends
  obtain ⟨rfl, front, size, -⟩ := Message.shift_eq_some shifts
  simp only at front size sends
  obtain rfl : bytes = cause.bytes - quoteOffset := front
  obtain rfl : length = quoteOffset + min cause.length Control.Error_MAX_SIZE := by
    change _ = _ + ((quoteOffset : ℕ) : ℤ) at size
    omega
  split_ifs at sends with even
  simp only [Option.some.injEq] at sends
  exact ⟨_, padding, sends.symm⟩

/-- What an error packet says: its label, and the packet that it quotes. -/
theorem sendError_spec {iface : SwitchInterface} {cause error : Message} {code : BitVec 32}
    (sends : sendError iface cause code = some (some error)) :
    Headers.messageLabel error = Bits.bitReverse64 (Headers.messageLabel cause) ∧
      error.content.drop quoteOffset = cause.content.take Control.Error_MAX_SIZE := by
  obtain ⟨checksum, padding, rfl⟩ := sendError_cases sends
  constructor
  · rw [messageLabel_meter]
    exact (Headers.label_setChecksum_be ..).trans (label_writeErrorPacket ..)
  · rw [Message.content, Message.content, length_meter, bytes_meter, Memory.read_add,
      List.drop_left' (Memory.length_read ..), Memory.take_read', sub_add_cancel]
    apply Memory.read_congr
    intro place lower _
    rw [memory_meter_outside (by change cause.bytes - 20 + 12 ≤ place; omega)]
    exact (Headers.setChecksum_be_outside _ _
      (by change cause.bytes - 20 + 12 + 2 ≤ place; omega)).trans
        (writeErrorPacket_outside _ _ (by omega))

/-- A packet goes on with its priority if it has none, or if its interface is not flooded. -/
theorem meter_eq_self {switchIf : SwitchInterface} {toSend : Message}
    (fine : Headers.getPriority toSend.memory toSend.bytes = 0 ∨
      switchIf.buffer + (Headers.getPriority toSend.memory toSend.bytes).toNat ≤
        switchIf.bufferMax) : meter switchIf toSend = toSend := by
  simp only [meter]
  split_ifs with flooded
  · rcases fine with zero | fits
    · rw [Headers.setPriority_zero_of_getPriority zero]
    · exact absurd fits (not_le.mpr flooded)
  · rfl

theorem getPriority_meter {switchIf : SwitchInterface} {toSend : Message}
    (flooded : switchIf.bufferMax <
      switchIf.buffer + (Headers.getPriority toSend.memory toSend.bytes).toNat) :
    Headers.getPriority (meter switchIf toSend).memory toSend.bytes = 0 := by
  simp only [meter, gt_iff_lt, if_pos flooded]
  exact Headers.getPriority_setPriority_zero ..

/-- A cause that is no error packet is answered, if there is room for the headers. -/
theorem exists_sendError {iface : SwitchInterface} {cause : Message} (code : BitVec 32)
    (data : Headers.getMessageType cause.memory cause.bytes ≠ Headers.SwitchHeader_TYPE_CONTROL)
    (room : quoteOffset ≤ cause.padding) (even : cause.bytes % 2 = 0) :
    ∃ error, sendError iface cause code = some (some error) := by
  have shifts := Message.shift_pos { cause with
    length := if cause.length < Control.Error_MAX_SIZE then cause.length
      else Control.Error_MAX_SIZE } (by decide : 0 < quoteOffset) room
  have front : (Headers.SwitchHeader_SIZE + Control.HEADER_SIZE + Control.Error_HEADER_SIZE : ℤ) =
      (quoteOffset : ℕ) := rfl
  have aligned : (cause.bytes - (quoteOffset : ℕ) + (Headers.SwitchHeader_SIZE : ℕ)) % 2 = 0 := by
    change (cause.bytes - 20 + 12) % 2 = 0
    omega
  simp only [sendError, data, false_and, if_false, front, shifts, Option.bind_some, aligned, if_true]
  exact ⟨_, rfl⟩

/-- How an error packet comes about. -/
theorem answered_cases {core : SwitchCore}
    {send : Fin INTERFACES → Message → BitVec 8 × Message} {sourceIndex iface : Fin INTERFACES}
    {packet error : Message} {sent : List Sent}
    (receives : core.receiveMessage send sourceIndex packet = some sent)
    (answers : Sent.answered iface error ∈ sent) :
    iface = sourceIndex ∧ ∃ tried code cause,
      core.handle send sourceIndex packet = .refused tried code cause ∧
        sendError (core.interfaces sourceIndex) cause (code.setWidth 32) = some (some error) := by
  rw [receiveMessage] at receives
  cases handled : core.handle send sourceIndex packet with
  | dropped =>
      simp only [handled, Option.some.injEq] at receives
      simp [← receives] at answers
  | forwarded destIndex handed =>
      simp only [handled, Option.some.injEq] at receives
      simp [← receives] at answers
  | refused tried code cause =>
      simp only [handled, Option.map_eq_some_iff] at receives
      obtain ⟨answer, sends, rfl⟩ := receives
      simp only [List.mem_append, List.mem_map, Option.mem_toList, reduceCtorEq, and_false,
        exists_false, false_or, Sent.answered.injEq] at answers
      obtain ⟨_, rfl, rfl, rfl⟩ := answers
      exact ⟨rfl, tried, code, cause, rfl, sends⟩

end SwitchCore

/-! ## The interfaces that the program registers -/

/-- What a node registers with its switch. -/
structure Registered where
  /-- the peer of each slot other than the router's -/
  peers : Fin INTERFACES → DefaultInterfaceController.Peer
  ducttape : Ducttape.SwitchLayer
  now : BitVec 64

/-- `sendMessage` of the interface in a slot -/
def Registered.send (node : Registered) (destIndex : Fin INTERFACES) (message : Message) :
    BitVec 8 × Message :=
  if destIndex = 1 then
    match Ducttape.incomingFromSwitch node.ducttape message with
    | some (err, left, _) => (err, left)
    -- the process is aborted, so that no error is reported
    | none => (Error.NONE, message)
  else DefaultInterfaceController.sendFromSwitch (node.peers destIndex) node.now message

theorem Registered.length_of_router {node : Registered} {message : Message}
    (fails : (node.send 1 message).1 ≠ Error.NONE) : (node.send 1 message).2.length < 8 := by
  simp only [send, if_true] at fails ⊢
  cases receives : Ducttape.incomingFromSwitch node.ducttape message with
  | none => simp [receives] at fails
  | some outcome =>
      obtain ⟨err, left, effects⟩ := outcome
      simp only [receives] at fails ⊢
      exact Ducttape.incomingFromSwitch_err receives fails

namespace SwitchCore

/--
An error packet is truthful if its label is the reversal of the packet's label
and it quotes the packet from its switch header on.
-/
def Truthful (packet error : Message) : Prop :=
  Headers.messageLabel error = Bits.bitReverse64 (Headers.messageLabel packet) ∧
    ∃ count, Headers.SwitchHeader_SIZE ≤ count ∧
      error.content.drop quoteOffset = packet.content.take count

/--
A packet is still there to be quoted when an error is reported: the switch
refuses it by itself, or it is for a peer and keeps its priority.
-/
def Quotable (core : SwitchCore) (sourceIndex : Fin INTERFACES) (packet : Message) : Prop :=
  match core.route sourceIndex (Headers.messageLabel packet) with
  | .malformed => True
  | .forward destIndex _ =>
      destIndex ≠ 1 ∧ (Headers.getPriority packet.memory packet.bytes = 0 ∨
        (core.interfaces destIndex).buffer +
            (Headers.getPriority packet.memory packet.bytes).toNat ≤
          (core.interfaces destIndex).bufferMax)

variable {core : SwitchCore} {node : Registered} {sourceIndex destIndex : Fin INTERFACES}
  {packet error : Message} {targetLabel : BitVec 64}

/-- The packet that `sendError` is called on after a peer's interface has reported an error. -/
theorem content_of_peer_refusal (peer : destIndex ≠ 1)
    (fails : (node.send destIndex (core.relabelled destIndex targetLabel packet)).1 ≠ Error.NONE) :
    let left := (node.send destIndex (core.relabelled destIndex targetLabel packet)).2
    let cause := { left with
      memory := Headers.setLabel_be left.memory packet.bytes
        (Endian.bigEndianToHost64 (Headers.messageLabel packet)) }
    cause.bytes = packet.bytes ∧ cause.length = min packet.length 255 ∧
      cause.content = (Headers.setLabel_be (core.relabelled destIndex targetLabel packet).memory
        packet.bytes (Endian.bigEndianToHost64 (Headers.messageLabel packet))).read packet.bytes
          (min packet.length 255) := by
  intro left cause
  have sends : node.send destIndex (core.relabelled destIndex targetLabel packet) =
      DefaultInterfaceController.sendFromSwitch (node.peers destIndex) node.now
        (core.relabelled destIndex targetLabel packet) := if_neg peer
  have bytes : (core.relabelled destIndex targetLabel packet).bytes = packet.bytes :=
    bytes_meter ..
  rw [sends] at fails
  have same := DefaultInterfaceController.read_of_sendFromSwitch fails
  rw [← sends, bytes, length_relabelled] at same
  obtain ⟨front, size, read⟩ := same
  refine ⟨front, size, ?_⟩
  have stored : (left.memory.store packet.bytes _).read packet.bytes left.length = _ :=
    Memory.read_store_congr (Endian.bigEndianToHost64 (Headers.messageLabel packet)) read
  rw [size] at stored
  exact (congrArg₂ (Memory.read (Headers.setLabel_be left.memory packet.bytes
    (Endian.bigEndianToHost64 (Headers.messageLabel packet)))) front size).trans stored

/-- The packet as it is handed to its destination, if the priority is kept. -/
theorem relabelled_eq
    (keeps : Headers.getPriority packet.memory packet.bytes = 0 ∨
      (core.interfaces destIndex).buffer +
          (Headers.getPriority packet.memory packet.bytes).toNat ≤
        (core.interfaces destIndex).bufferMax) :
    core.relabelled destIndex targetLabel packet = { packet with
      memory := Headers.setLabel_be packet.memory packet.bytes
        (Endian.hostToBigEndian64 targetLabel) } := by
  rw [relabelled, meter_eq_self]
  simpa only [Headers.getPriority, Headers.lowBits_be_setLabel_be] using keeps

/-- Restoring the label restores the packet, if the priority has been kept. -/
theorem setLabel_be_relabelled
    (keeps : Headers.getPriority packet.memory packet.bytes = 0 ∨
      (core.interfaces destIndex).buffer +
          (Headers.getPriority packet.memory packet.bytes).toNat ≤
        (core.interfaces destIndex).bufferMax) :
    Headers.setLabel_be (core.relabelled destIndex targetLabel packet).memory packet.bytes
      (Endian.bigEndianToHost64 (Headers.messageLabel packet)) = packet.memory := by
  rw [relabelled_eq keeps, Headers.setLabel_be, Headers.setLabel_be, Memory.store_store,
    Headers.messageLabel, Headers.label]
  simp only [Endian.bigEndianToHost64, Endian.byteSwap64_byteSwap64]
  exact Memory.store_load _ _ (by norm_num)

/-- A priority that has been cleared is not restored with the label. -/
theorem getPriority_setLabel_be_relabelled
    (flooded : (core.interfaces destIndex).bufferMax < (core.interfaces destIndex).buffer +
      (Headers.getPriority packet.memory packet.bytes).toNat) :
    Headers.getPriority (Headers.setLabel_be (core.relabelled destIndex targetLabel packet).memory
      packet.bytes (Endian.bigEndianToHost64 (Headers.messageLabel packet))) packet.bytes = 0 := by
  rw [Headers.getPriority, Headers.lowBits_be_setLabel_be, ← Headers.getPriority]
  exact getPriority_meter (by
    simpa only [Headers.getPriority, Headers.lowBits_be_setLabel_be] using flooded)

/-- A quotation that begins with the packet's switch header has its priority. -/
theorem getPriority_of_quoted {cause : Message} {count quoted : ℕ}
    (same : cause.content.take quoted = packet.content.take count)
    (long : Headers.SwitchHeader_SIZE ≤ quoted) (longer : Headers.SwitchHeader_SIZE ≤ count)
    (causeLong : Headers.SwitchHeader_SIZE ≤ cause.length)
    (packetLong : Headers.SwitchHeader_SIZE ≤ packet.length) :
    Headers.getPriority cause.memory cause.bytes = Headers.getPriority packet.memory packet.bytes := by
  have header := congrArg (List.take Headers.SwitchHeader_SIZE) same
  rw [List.take_take, List.take_take, min_eq_left long, min_eq_left longer, Message.content,
    Message.content, Memory.take_read _ _ causeLong, Memory.take_read _ _ packetLong] at header
  rw [Headers.getPriority, Headers.getPriority, Headers.lowBits_be_eq_of_read_eq header]

/--
Error packets are truthful exactly for the packets that are still there to be
quoted when the error is reported.
-/
theorem truthful_iff {iface : Fin INTERFACES} {sent : List Sent}
    (receives : core.receiveMessage node.send sourceIndex packet = some sent)
    (answers : Sent.answered iface error ∈ sent) :
    (iface = sourceIndex ∧ Truthful packet error) ↔ core.Quotable sourceIndex packet := by
  obtain ⟨rfl, tried, code, cause, refuses, sends⟩ := answered_cases receives answers
  have label := label_of_refused refuses
  obtain ⟨errorLabel, quote⟩ := sendError_spec sends
  have notDropped : core.handle node.send iface packet ≠ .dropped := by simp [refuses]
  obtain ⟨metered, long⟩ := metered_long_of_handle notDropped
  rw [handle_eq metered long] at refuses
  rw [Quotable]
  cases verdict : core.route iface (Headers.messageLabel packet) with
  | malformed =>
      simp only [verdict, Handled.refused.injEq] at refuses
      obtain ⟨-, -, rfl⟩ := refuses
      exact iff_of_true ⟨rfl, errorLabel, Control.Error_MAX_SIZE, by decide, quote⟩ trivial
  | forward destIndex targetLabel =>
      simp only [verdict] at refuses
      split_ifs at refuses with fails
      simp only [Handled.refused.injEq] at refuses
      obtain ⟨-, -, rfl⟩ := refuses
      by_cases router : destIndex = 1
      · -- slot 1 has taken off the header, and too little is left to quote
        subst router
        refine iff_of_false (fun truthful => ?_) fun quotable => quotable.1 rfl
        obtain ⟨-, -, count, enough, same⟩ := truthful
        have runt := Registered.length_of_router fails
        have lengths := congrArg List.length (quote.symm.trans same)
        rw [List.length_take, List.length_take, Message.length_content,
          Message.length_content] at lengths
        change 12 ≤ count at enough
        change 12 ≤ packet.length at long
        simp only at lengths
        omega
      · obtain ⟨front, size, content⟩ := content_of_peer_refusal router fails
        generalize hcause : ({ (node.send destIndex _).2 with memory := _ } : Message) = cause
          at errorLabel quote label front size content
        have causeLong : Headers.SwitchHeader_SIZE ≤ cause.length := by
          change 12 ≤ packet.length at long
          change 12 ≤ cause.length
          omega
        by_cases keeps : Headers.getPriority packet.memory packet.bytes = 0 ∨
            (core.interfaces destIndex).buffer +
                (Headers.getPriority packet.memory packet.bytes).toNat ≤
              (core.interfaces destIndex).bufferMax
        · refine iff_of_true ⟨rfl, ?_, min packet.length 255, ?_, ?_⟩ ⟨router, keeps⟩
          · rw [errorLabel, Headers.messageLabel, front, label]
          · exact size ▸ causeLong
          · rw [quote, content, setLabel_be_relabelled keeps, Message.content, Memory.take_read',
              Memory.take_read']
            congr 1
            change min (min packet.length 255) 256 = _
            omega
        · refine iff_of_false (fun truthful => ?_) fun quotable => keeps quotable.2
          obtain ⟨-, -, count, enough, same⟩ := truthful
          rw [not_or, not_le] at keeps
          have priority := getPriority_of_quoted (quote.symm.trans same) (by decide) enough
            causeLong long
          have header := congrArg (List.take Headers.SwitchHeader_SIZE) content
          rw [Message.content, Memory.take_read _ _ causeLong,
            Memory.take_read _ _ (size ▸ causeLong)] at header
          apply keeps.1
          rw [← priority, Headers.getPriority, Headers.lowBits_be_eq_of_read_eq header,
            ← Headers.getPriority]
          exact getPriority_setLabel_be_relabelled keeps.2

/-! ## Runts -/

theorem getMessageType_setLabel_be {memory : Memory} {header other : ℤ} {value : BitVec 64}
    (behind : header ≤ other) :
    Headers.getMessageType (Headers.setLabel_be memory header value) other =
      Headers.getMessageType memory other := by
  rw [Headers.getMessageType, Headers.getMessageType, Headers.lowBits_be, Headers.lowBits_be,
    Headers.setLabel_be, Memory.load_store_disjoint _ (by omega)]

/-- A data packet for the router that is too short for a handle and a nonce is answered. -/
theorem exists_answer_of_runt
    (metered : (core.interfaces sourceIndex).buffer ≤ (core.interfaces sourceIndex).bufferMax)
    (long : Headers.SwitchHeader_SIZE ≤ packet.length)
    (runt : packet.length < Headers.SwitchHeader_SIZE + 8)
    (routed : core.route sourceIndex (Headers.messageLabel packet) = .forward 1 targetLabel)
    (unprioritised : Headers.getPriority packet.memory packet.bytes = 0)
    (data : Headers.getMessageType packet.memory packet.bytes ≠ Headers.SwitchHeader_TYPE_CONTROL)
    (behind : Headers.getMessageType packet.memory (packet.bytes + Headers.SwitchHeader_SIZE) ≠
      Headers.SwitchHeader_TYPE_CONTROL)
    (room : quoteOffset ≤ packet.padding) (even : packet.bytes % 2 = 0) :
    ∃ sent error, core.receiveMessage node.send sourceIndex packet = some sent ∧
      Sent.answered sourceIndex error ∈ sent ∧ ¬ Truthful packet error := by
  obtain ⟨left, sends, short, front, padding, type⟩ : ∃ left,
      node.send 1 (core.relabelled 1 targetLabel packet) = (Error.INVALID, left) ∧
        left.length < 8 ∧ left.bytes = packet.bytes + 12 ∧ quoteOffset ≤ left.padding ∧
        Headers.getMessageType left.memory left.bytes ≠ Headers.SwitchHeader_TYPE_CONTROL := by
    have handed : core.relabelled 1 targetLabel packet = _ := relabelled_eq (Or.inl unprioritised)
    rw [Registered.send, if_pos rfl, Ducttape.incomingFromSwitch_runt
      (by rw [handed]; rwa [getMessageType_setLabel_be le_rfl])
      (by rwa [length_relabelled]) (by rwa [length_relabelled]), handed]
    refine ⟨_, rfl, ?_, rfl, Nat.le_add_right_of_le room, ?_⟩
    · change packet.length < 12 + 8 at runt
      change packet.length - 12 < 8
      omega
    · have after : packet.bytes ≤ packet.bytes + (Headers.SwitchHeader_SIZE : ℕ) := by
        change packet.bytes ≤ packet.bytes + 12
        omega
      rwa [getMessageType_setLabel_be after, getMessageType_setLabel_be after]
  obtain ⟨error, answers⟩ : ∃ error, sendError (core.interfaces sourceIndex)
      { left with
        memory := Headers.setLabel_be left.memory packet.bytes
          (Endian.bigEndianToHost64 (Headers.messageLabel packet)) }
      (BitVec.setWidth 32 Error.INVALID) = some (some error) :=
    exists_sendError _ (by
        rw [getMessageType_setLabel_be (by change packet.bytes ≤ left.bytes; omega)]
        exact type) padding
      (by change left.bytes % 2 = 0; omega)
  refine ⟨[.forwarded 1 (core.relabelled 1 targetLabel packet), .answered sourceIndex error],
    error, ?_, by simp, fun truthful => ?_⟩
  · rw [receiveMessage, handle_eq metered long]
    simp only [routed, sends]
    rw [if_pos (by decide)]
    simp only [answers]
    rfl
  · obtain ⟨-, count, enough, same⟩ := truthful
    have lengths := congrArg List.length ((sendError_spec answers).2.symm.trans same)
    rw [List.length_take, List.length_take, Message.length_content,
      Message.length_content] at lengths
    change 12 ≤ count at enough
    change 12 ≤ packet.length at long
    simp only at lengths
    omega

/-- A node whose peers take every packet. -/
def quietNode : Registered where
  peers _ := ⟨fun message => (Error.NONE, message), 0, 0⟩
  ducttape := ⟨false, fun _ => none, fun _ _ => 0, id⟩
  now := 0

/-- A switch with a router and a peer in slot 2. -/
def quietCore : SwitchCore where
  interfaces slot :=
    { iface := if slot = 1 ∨ slot = 2 then some slot else none, buffer := 0, bufferMax := 0 }
  interfaceCount := 2
  routerAdded := true

/-- A packet of a label, zeros and four bytes of payload. -/
def shortPacket (label : BitVec 64) : Message :=
  { Headers.bareHeader label with length := 16, padding := 32 }

theorem lowBits_be_shortPacket {label : BitVec 64} {header : ℤ} (behind : 0 ≤ header) :
    Headers.lowBits_be (shortPacket label).memory header = 0 := by
  change (Headers.setLabel_be (fun _ => 0) 0 _).load (header + 8) 32 = 0
  rw [Headers.setLabel_be, Memory.load_store_disjoint _ (by omega), Memory.load_zero]

/-- A runt for the router is answered with an error packet that does not quote it. -/
theorem not_truthful_runt : ∃ sent error,
    quietCore.receiveMessage quietNode.send 2 (shortPacket 1) = some sent ∧
      Sent.answered 2 error ∈ sent ∧ ¬ Truthful (shortPacket 1) error := by
  have routed : quietCore.route 2 (Headers.messageLabel (shortPacket 1)) =
      .forward 1 0xA000000000000000 := by
    rw [show Headers.messageLabel (shortPacket 1) = 1 from Headers.messageLabel_bareHeader 1]
    decide
  have type (header : ℤ) (behind : 0 ≤ header) :
      Headers.getMessageType (shortPacket 1).memory header ≠
        Headers.SwitchHeader_TYPE_CONTROL := by
    rw [Headers.getMessageType, lowBits_be_shortPacket behind]
    decide
  have priority : Headers.getPriority (shortPacket 1).memory (shortPacket 1).bytes = 0 := by
    have zeros : Headers.lowBits_be (shortPacket 1).memory (shortPacket 1).bytes = 0 :=
      lowBits_be_shortPacket le_rfl
    rw [Headers.getPriority, zeros]
    decide
  exact exists_answer_of_runt le_rfl (by decide) (by decide) routed priority (type _ le_rfl)
    (type _ (by decide)) (by decide) rfl

/-- A packet for a vacant slot is answered with an error packet that quotes it. -/
theorem truthful_unroutable : ∃ sent error,
    quietCore.receiveMessage quietNode.send 2 (shortPacket 0x17) = some sent ∧
      Truthful (shortPacket 0x17) error := by
  have routed : quietCore.route 2 (Headers.messageLabel (shortPacket 0x17)) = .malformed := by
    rw [show Headers.messageLabel (shortPacket 0x17) = 0x17 from
      Headers.messageLabel_bareHeader 0x17]
    decide
  have zeros : Headers.lowBits_be (shortPacket 0x17).memory (shortPacket 0x17).bytes = 0 :=
    lowBits_be_shortPacket le_rfl
  obtain ⟨error, answers⟩ : ∃ error, sendError (quietCore.interfaces 2) (shortPacket 0x17)
      (BitVec.setWidth 32 Error.MALFORMED_ADDRESS) = some (some error) :=
    exists_sendError _ (by rw [Headers.getMessageType, zeros]; decide) (by decide) rfl
  have receives : quietCore.receiveMessage quietNode.send 2 (shortPacket 0x17) =
      some [.answered 2 error] := by
    rw [receiveMessage, handle_eq le_rfl (by decide)]
    simp only [routed, answers]
    rfl
  have answered : Sent.answered 2 error ∈ [Sent.answered 2 error] := List.mem_singleton_self _
  refine ⟨_, error, receives, ((truthful_iff receives answered).mpr ?_).2⟩
  rw [Quotable, routed]
  trivial

end SwitchCore

end Cjdns
