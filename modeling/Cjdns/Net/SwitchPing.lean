import Cjdns.Net.PingReturn

/-!
# Switch pings

`SwitchPinger.c` writes a ping, the node that gets it makes a pong of it in place, and the pinger
that gets the pong reports it to whoever sent the ping.
-/

namespace Cjdns

open Ducttape (CURRENT_PROTOCOL checksum)

namespace SwitchPinger

/-- `BUFFER_SZ` -/
abbrev BUFFER_SZ : ℕ := 4096

/-- `sendPing`, with its buffer on the stack; there is no result where an assertion fails. -/
def sendPing (buffer : ℤ) (stack : Memory) (label : BitVec 64) (data : List (BitVec 8)) :
    Option Message :=
  let bytes := buffer + (BUFFER_SZ - (data.length + 8 - data.length % 8))
  if data.length < BUFFER_SZ / 2 then
    let msg : Message :=
      { memory := stack.write bytes data
        length := data.length
        padding := (bytes - buffer).toNat
        bytes := bytes }
    (msg.shift Ping_HEADER_SIZE).bind fun (msg : Message) =>
      let pingHeader := msg.bytes
      let memory := msg.memory.store pingHeader Control.Ping_MAGIC
      let memory := memory.store (pingHeader + 4) (Endian.hostToBigEndian32 CURRENT_PROTOCOL)
      ({ msg with memory := memory }.shift Control.HEADER_SIZE).bind fun (msg : Message) =>
        let ctrl := msg.bytes
        let memory := Control.setChecksum_be msg.memory ctrl 0
        let memory := Control.setType_be memory ctrl Control.PING_be
        (checksum { msg with memory := memory }).bind fun sum =>
          let memory := Control.setChecksum_be memory ctrl sum
          ({ msg with memory := memory }.shift Headers.SwitchHeader_SIZE).map fun (msg : Message) =>
            let switchHeader := msg.bytes
            let memory := Headers.setLabel_be msg.memory switchHeader
              (Endian.hostToBigEndian64 label)
            { msg with
              memory := Headers.setPriorityAndMessageType memory switchHeader 0
                Headers.SwitchHeader_TYPE_CONTROL }
  else none

/-- What `Pinger_newPing` sends for the data of a ping: the slot is in front. -/
def toSend (slot : Fin Pinger.MAX_CONCURRENT_PINGS) (data : Option (List (BitVec 8))) :
    List (BitVec 8) :=
  let index := BitVec.ofNat 32 slot
  [index.extractLsb' 0 8, index.extractLsb' 8 8, index.extractLsb' 16 8, index.extractLsb' 24 8] ++
    data.getD []

end SwitchPinger

namespace Control

variable {type : BitVec 16} {magic version : BitVec 32} {data : List (BitVec 8)}
  {message : Message}

/-- A header that is complete but for its checksum is given the checksum. -/
theorem IsPing.of_stored {memory : Memory} {ctrl : ℤ} (small : 12 + data.length < 2 ^ 16)
    (zero : memory.load ctrl 16 = 0) (typed : type_be memory ctrl = type)
    (magical : memory.load (ctrl + 4) 32 = magic) (versioned : memory.load (ctrl + 8) 32 = version)
    (filled : memory.read (ctrl + 12) data.length = data)
    (length : message.length = 24 + data.length) (place : message.bytes + 12 = ctrl)
    (control : Headers.getMessageType message.memory message.bytes =
      Headers.SwitchHeader_TYPE_CONTROL)
    (agrees : ∀ place, ctrl ≤ place → message.memory place = setChecksum_be memory ctrl
      (Checksum.engine memory ctrl (BitVec.ofNat 16 (12 + data.length))) place) :
    IsPing type magic version data message := by
  have behind (place : ℤ) (above : ctrl + 2 ≤ place) : message.memory place = memory place := by
    rw [agrees place (by omega)]
    exact Memory.store_outside _ (.inr (by omega))
  have word (offset : ℤ) (width : ℕ) (inside : 2 ≤ offset) :
      message.memory.load (ctrl + offset) width = memory.load (ctrl + offset) width :=
    Memory.load_congr fun place lower _ => behind place (by omega)
  refine ⟨length, control, ?_, ?_, ?_, ?_, ?_⟩
  · have whole : message.memory.read ctrl (12 + data.length) = (setChecksum_be memory ctrl
        (Checksum.engine memory ctrl (BitVec.ofNat 16 (12 + data.length)))).read ctrl
          (12 + data.length) := Memory.read_congr fun place lower _ => agrees place lower
    have enough : 2 ≤ (BitVec.ofNat 16 (12 + data.length)).toNat := by
      rw [BitVec.toNat_ofNat, Nat.mod_eq_of_lt small]
      omega
    have stored := Checksum.engine_store enough zero
    rw [← Checksum.Host.engine_read, BitVec.toNat_ofNat, Nat.mod_eq_of_lt small] at stored
    rw [place, ← Checksum.Host.engine_read, BitVec.toNat_ofNat, Nat.mod_eq_of_lt small, whole]
    exact stored
  · rw [place, type_be, word 2 16 le_rfl]
    exact typed
  · rw [show message.bytes + 16 = ctrl + 4 by omega, word 4 32 (by decide), magical]
  · rw [show message.bytes + 20 = ctrl + 8 by omega, word 8 32 (by decide), versioned]
  · rw [show message.bytes + 24 = ctrl + 12 by omega]
    exact (Memory.read_congr fun place lower _ => behind place (by omega)).trans filled

end Control

namespace SwitchPinger

variable {buffer : ℤ} {stack : Memory} {label : BitVec 64} {data : List (BitVec 8)}

/-- The pinger writes a ping with the data. -/
theorem sendPing_spec (short : data.length < BUFFER_SZ / 2) (even : buffer % 2 = 0) :
    ∃ packet, sendPing buffer stack label data = some packet ∧
      Control.IsPing Control.PING_be Control.Ping_MAGIC
        (Endian.hostToBigEndian32 CURRENT_PROTOCOL) data packet ∧
      Headers.messageLabel packet = label ∧ packet.bytes % 2 = 0 := by
  have control : Headers.SwitchHeader_TYPE_CONTROL.toNat < 2 ^ 8 := by decide
  have small : data.length < 2048 := short
  have eighth : data.length % 8 < 8 := Nat.mod_lt _ (by decide)
  -- The place of the control header
  obtain ⟨ctrl, place⟩ : ∃ ctrl, ctrl + 12 =
      buffer + (BUFFER_SZ - ((data.length : ℤ) + 8 - data.length % 8)) := ⟨_, sub_add_cancel _ 12⟩
  have room : 24 ≤ (ctrl + 12 - buffer).toNat := by
    rw [place]
    change 24 ≤ (buffer + (4096 - ((data.length : ℤ) + 8 - data.length % 8)) - buffer).toNat
    omega
  have aligned : ctrl % 2 = 0 := by
    change ctrl + 12 = buffer + (4096 - ((data.length : ℤ) + 8 - data.length % 8)) at place
    omega
  rw [sendPing, if_pos short]
  simp only [← place]
  rw [Message.shift_pos _ (by decide) (le_trans (by decide) room), Option.bind_some]
  dsimp only
  have first : ctrl + 12 - (Ping_HEADER_SIZE : ℕ) = ctrl + 4 := by
    change ctrl + 12 - 8 = ctrl + 4
    omega
  have second : ctrl + 4 - (Control.HEADER_SIZE : ℕ) = ctrl := by
    change ctrl + 4 - 4 = ctrl
    omega
  rw [first, Message.shift_pos _ (by decide) (by change 4 ≤ _ - 8; omega), Option.bind_some]
  dsimp only
  rw [second, checksum, if_pos aligned, Option.bind_some,
    Message.shift_pos _ (by decide) (by change 12 ≤ _ - 8 - 4; omega), Option.map_some]
  dsimp only
  have length : data.length + Ping_HEADER_SIZE + Control.HEADER_SIZE = 12 + data.length := by
    change data.length + 8 + 4 = _
    omega
  have front : ctrl - (Headers.SwitchHeader_SIZE : ℕ) + 12 = ctrl := sub_add_cancel _ 12
  rw [length]
  generalize written : Control.setType_be _ ctrl Control.PING_be = header
  rw [add_assoc ctrl] at written
  refine ⟨_, rfl, ?_, ?_, ?_⟩
  · apply @Control.IsPing.of_stored _ _ _ _ _ header ctrl (by omega)
    · rw [← written, Control.setType_be, Memory.load_store_disjoint _ (.inl (by omega)),
        Control.setChecksum_be, Memory.load_store _ _ _ (by decide)]
    · rw [← written, Control.type_be, Control.setType_be, Memory.load_store _ _ _ (by decide)]
    · rw [← written, Control.setType_be, Memory.load_store_disjoint _ (.inr (by omega)),
        Control.setChecksum_be, Memory.load_store_disjoint _ (.inr (by omega)),
        Memory.load_store_disjoint _ (.inl (by omega)), Memory.load_store _ _ _ (by decide)]
    · rw [← written, Control.setType_be, Memory.load_store_disjoint _ (.inr (by omega)),
        Control.setChecksum_be, Memory.load_store_disjoint _ (.inr (by omega))]
      exact Memory.load_store _ _ _ (by decide)
    · rw [← written]
      refine (Memory.read_congr fun place lower _ => ?_).trans (Memory.read_write stack _ data)
      rw [Control.setType_be, Memory.store_outside _ (.inr (by omega)), Control.setChecksum_be,
        Memory.store_outside _ (.inr (by omega)), Memory.store_outside _ (.inr (by omega)),
        Memory.store_outside _ (.inr (by omega))]
    · change 12 + data.length + 12 = _
      omega
    · exact front
    · exact Headers.getMessageType_setPriorityAndMessageType _ _ _ control
    · intro place lower
      change Headers.setPriorityAndMessageType _ (ctrl - 12) _ _ place = _
      rw [Headers.setPriorityAndMessageType, Memory.store_outside _ (.inr (by omega)),
        Headers.setLabel_be, Memory.store_outside _ (.inr (by omega))]
  · exact (Headers.label_setPriorityAndMessageType ..).trans (Headers.label_setLabel_be ..)
  · change (ctrl - 12) % 2 = 0
    omega

end SwitchPinger

/-! ## The node that is pinged -/

namespace Ducttape

variable {context : SwitchLayer} {message : Message} {magic version : BitVec 32}
  {data : List (BitVec 8)}

/-- What is left when `incomingFromSwitch` has looked at the type of a control packet -/
theorem incomingFromSwitch_control (context : SwitchLayer)
    (long : Headers.SwitchHeader_SIZE ≤ message.length)
    (control : Headers.getMessageType message.memory message.bytes =
      Headers.SwitchHeader_TYPE_CONTROL) :
    ∃ reversed, message.SamePayload reversed ∧ reversed.bytes = message.bytes ∧
      reversed.padding = message.padding ∧
      Headers.messageLabel reversed = Bits.bitReverse64 (Headers.messageLabel message) ∧
      incomingFromSwitch context message = handleControlMessage context
        { reversed with
          length := message.length - Headers.SwitchHeader_SIZE
          bytes := message.bytes + Headers.SwitchHeader_SIZE
          padding := message.padding + Headers.SwitchHeader_SIZE } message.bytes := by
  refine ⟨_, SwitchCore.samePayload_setLabel_be message
    (Bits.bitReverse64 (Headers.label_be message.memory message.bytes)), rfl, rfl, ?_, ?_⟩
  · rw [Headers.messageLabel, Headers.messageLabel, Headers.label, Headers.label_be,
      Headers.setLabel_be, Memory.load_store _ _ _ (by decide), Headers.label]
    exact (Endian.bitReverse64_byteSwap64 _).symm
  · rw [incomingFromSwitch, Message.shift_neg _ long, Option.bind_some]
    dsimp only
    rw [if_pos ((Headers.getMessageType_setLabel_be ..).trans control)]

/-- A ping is answered with a pong that has the same data, under the reversed label. -/
theorem incomingFromSwitch_ping (ping : Control.IsPing Control.PING_be magic version data message)
    (small : 12 + data.length < 2 ^ 16) (even : message.bytes % 2 = 0) :
    ∃ left reply, incomingFromSwitch context message = some (Error.NONE, left, [.toSwitch reply]) ∧
      Control.IsPing Control.PONG_be Control.Pong_MAGIC
        (Endian.hostToBigEndian32 CURRENT_PROTOCOL) data reply ∧
      Headers.messageLabel reply = Bits.bitReverse64 (Headers.messageLabel message) := by
  have length := ping.length
  have long : Headers.SwitchHeader_SIZE ≤ message.length := by
    change 12 ≤ message.length
    omega
  rcases incomingFromSwitch_control context long ping.control with
    ⟨reversed, same, bytes, padding, label, handled⟩
  have arrived := ping.carry small same
  obtain ⟨ctrl, place⟩ : ∃ ctrl, message.bytes + (Headers.SwitchHeader_SIZE : ℕ) = ctrl := ⟨_, rfl⟩
  have header : message.bytes = ctrl - 12 := by
    change message.bytes + 12 = ctrl at place
    omega
  have size : message.length - Headers.SwitchHeader_SIZE = 12 + data.length := by
    change message.length - 12 = _
    omega
  have place' : reversed.bytes + 12 = ctrl := bytes ▸ place
  have aligned : ctrl % 2 = 0 := by omega
  have typed := arrived.type_eq
  have valid := arrived.valid
  rw [place'] at typed valid
  rw [handled, place, size, handleControlMessage]
  dsimp only
  rw [if_neg (by change ¬ 12 + data.length < 4; omega), checksum, if_pos aligned, valid,
    Option.bind_some, if_neg (not_not.mpr rfl), typed, if_neg (by decide), if_neg (by decide),
    if_pos rfl, Message.shift_neg _ (by change 4 ≤ 12 + data.length; omega), Option.bind_some]
  dsimp only
  rw [if_neg (by change ¬ 12 + data.length - 4 < 8; omega),
    Message.shift_pos _ (by decide) (Nat.le_add_left _ _), Option.bind_some]
  dsimp only
  have whole : 12 + data.length - Control.HEADER_SIZE + Control.HEADER_SIZE = 12 + data.length :=
    Nat.sub_add_cancel (by change 4 ≤ 12 + data.length; omega)
  rw [add_sub_cancel_right, Nat.add_sub_cancel, whole]
  generalize written : Control.setChecksum_be _ ctrl 0 = header
  have four : ctrl + (Control.HEADER_SIZE : ℕ) = ctrl + 4 := rfl
  rw [four, add_assoc ctrl] at written
  rw [checksum, if_pos aligned, Option.bind_some, Message.shift_pos _ (by decide)
    (Nat.le_add_left _ _), Option.map_some]
  dsimp only
  -- The switch header is left alone.
  have front (sum : BitVec 16) (place : ℤ) (below : place < ctrl) :
      Control.setChecksum_be header ctrl sum place = reversed.memory place := by
    rw [← written, Control.setChecksum_be, Memory.store_outside _ (.inl below),
      Control.setChecksum_be, Memory.store_outside _ (.inl below), Control.setType_be,
      Memory.store_outside _ (.inl (by omega)), Memory.store_outside _ (.inl (by omega)),
      Memory.store_outside _ (.inl (by omega))]
  have same12 : ctrl - (Headers.SwitchHeader_SIZE : ℕ) = reversed.bytes := by
    change ctrl - 12 = _
    omega
  rw [same12]
  refine ⟨_, _, rfl, ?_, ?_⟩
  · apply @Control.IsPing.of_stored _ _ _ _ _ header ctrl small
    · rw [← written, Control.setChecksum_be, Memory.load_store _ _ _ (by decide)]
    · rw [← written, Control.type_be, Control.setChecksum_be,
        Memory.load_store_disjoint _ (.inr (by omega)), Control.setType_be,
        Memory.load_store _ _ _ (by decide)]
    · rw [← written, Control.setChecksum_be, Memory.load_store_disjoint _ (.inr (by omega)),
        Control.setType_be, Memory.load_store_disjoint _ (.inr (by omega)),
        Memory.load_store_disjoint _ (.inl (by omega)), Memory.load_store _ _ _ (by decide)]
    · rw [← written, Control.setChecksum_be, Memory.load_store_disjoint _ (.inr (by omega)),
        Control.setType_be, Memory.load_store_disjoint _ (.inr (by omega))]
      exact Memory.load_store _ _ _ (by decide)
    · have filled := arrived.data_eq
      rw [show reversed.bytes + 24 = ctrl + 12 by omega] at filled
      rw [← written]
      refine (Memory.read_congr fun place lower _ => ?_).trans filled
      rw [Control.setChecksum_be, Memory.store_outside _ (.inr (by omega)), Control.setType_be,
        Memory.store_outside _ (.inr (by omega)), Memory.store_outside _ (.inr (by omega)),
        Memory.store_outside _ (.inr (by omega))]
    · change 12 + data.length + 12 = _
      omega
    · exact place'
    · rw [← arrived.control, Headers.getMessageType, Headers.getMessageType, Headers.lowBits_be,
        Headers.lowBits_be]
      congr 2
      exact Memory.load_congr fun place _ upper => front _ place (by dsimp only at upper; omega)
    · intro place lower
      rfl
  · rw [← label, Headers.messageLabel, Headers.messageLabel, Headers.label, Headers.label,
      Headers.label_be, Headers.label_be]
    exact congrArg _ (Memory.load_congr fun place _ upper => front _ place (by dsimp only at upper; omega))

/-- A pong is handed to the pinger. -/
theorem incomingFromSwitch_pong
    (pong : Control.IsPing Control.PONG_be magic version data message)
    (small : 12 + data.length < 2 ^ 16) (even : message.bytes % 2 = 0)
    (pinger : context.hasPinger = true) :
    ∃ left passed, incomingFromSwitch context message =
        some (Error.NONE, left, [.toPinger passed]) ∧
      Control.IsPing Control.PONG_be magic version data passed ∧
      Headers.messageLabel passed = Bits.bitReverse64 (Headers.messageLabel message) := by
  have length := pong.length
  have long : Headers.SwitchHeader_SIZE ≤ message.length := by
    change 12 ≤ message.length
    omega
  rcases incomingFromSwitch_control context long pong.control with
    ⟨reversed, same, bytes, padding, label, handled⟩
  have arrived := pong.carry small same
  obtain ⟨ctrl, place⟩ : ∃ ctrl, message.bytes + (Headers.SwitchHeader_SIZE : ℕ) = ctrl := ⟨_, rfl⟩
  have size : message.length - Headers.SwitchHeader_SIZE = 12 + data.length := by
    change message.length - 12 = _
    omega
  have place' : reversed.bytes + 12 = ctrl := bytes ▸ place
  have aligned : ctrl % 2 = 0 := by omega
  have typed := arrived.type_eq
  have valid := arrived.valid
  rw [place'] at typed valid
  have same12 : ctrl - (Headers.SwitchHeader_SIZE : ℕ) = reversed.bytes := by
    change ctrl - 12 = _
    omega
  rw [handled, place, size, handleControlMessage]
  dsimp only
  rw [if_neg (by change ¬ 12 + data.length < 4; omega), checksum, if_pos aligned, valid,
    Option.bind_some, if_neg (not_not.mpr rfl), typed, if_neg (by decide), if_pos rfl, passOnPong,
    if_pos ⟨rfl, pinger⟩, Message.shift_pos _ (by decide) (Nat.le_add_left _ _), Option.map_some]
  dsimp only
  rw [same12]
  refine ⟨_, _, rfl, ⟨?_, arrived.control, arrived.valid, arrived.type_eq, arrived.magic_eq,
    arrived.version_eq, arrived.data_eq⟩, label⟩
  change 12 + data.length + 12 = _
  omega

end Ducttape

/-! ## The pinger -/

namespace SwitchPinger

variable {message : Message} {version : BitVec 32} {data : List (BitVec 8)}

/-- The pinger finds the data of the ping in its pong. -/
theorem receiveMessage_isPing
    (pong : Control.IsPing Control.PONG_be Control.Pong_MAGIC version data message) :
    ∃ found, receiveMessage message = some (.pongReceived
        { incomingLabel := Headers.messageLabel message
          incomingVersion := Endian.bigEndianToHost32 version
          isError := false } found) ∧
      found.content = data := by
  have length := pong.length
  have ctrl : message.bytes + (Headers.SwitchHeader_SIZE : ℕ) = message.bytes + 12 := rfl
  have header : message.bytes + 12 + (Control.HEADER_SIZE : ℕ) = message.bytes + 16 :=
    add_assoc _ 12 4
  have fields : message.bytes + 16 + 4 = message.bytes + 20 := add_assoc _ 16 4
  have place : message.bytes + 16 + (Ping_HEADER_SIZE : ℕ) = message.bytes + 24 := add_assoc _ 16 8
  have size : message.length - Headers.SwitchHeader_SIZE = 12 + data.length := by
    change message.length - 12 = _
    omega
  have rest : 12 + data.length - Control.HEADER_SIZE = 8 + data.length := by
    change 12 + data.length - 4 = _
    omega
  have left : 8 + data.length - Ping_HEADER_SIZE = data.length := Nat.add_sub_cancel_left ..
  rw [receiveMessage, if_neg (not_not.mpr pong.control),
    Message.shift_neg _ (by change 12 ≤ message.length; omega), Option.bind_some]
  dsimp only
  rw [ctrl, size, if_pos pong.type_eq,
    Message.shift_neg _ (by change 4 ≤ 12 + data.length; omega), Option.bind_some]
  dsimp only
  rw [header, rest, if_pos (Nat.le_add_right 8 _), Message.shift_neg _ (Nat.le_add_right 8 _),
    Option.map_some]
  dsimp only
  rw [if_neg (not_not.mpr pong.magic_eq), fields, pong.version_eq, place, left]
  exact ⟨_, rfl, pong.data_eq⟩

variable {slot : Fin Pinger.MAX_CONCURRENT_PINGS} {found : Message}

/-- `Pinger_pongReceived` finds the slot that `Pinger_newPing` has put in front. -/
theorem pongReceived_toSend {data : Option (List (BitVec 8))} {pings : Pinger.Pings}
    (content : found.content = toSend slot data) (taken : pings slot = true) :
    Pinger.pongReceived found pings = some slot := by
  have length : found.length = 4 + (data.getD []).length := by
    rw [← Message.length_content, content, toSend, List.length_append]
    rfl
  have front := congrArg (List.take 4) content
  rw [Message.content, Memory.take_read _ _ (by omega)] at front
  have stored : Memory.read (Memory.store (fun _ => 0) 0 (BitVec.ofNat 32 slot)) 0 4 =
      [(BitVec.ofNat 32 slot).extractLsb' 0 8, (BitVec.ofNat 32 slot).extractLsb' 8 8,
        (BitVec.ofNat 32 slot).extractLsb' 16 8, (BitVec.ofNat 32 slot).extractLsb' 24 8] := rfl
  have word : found.memory.load found.bytes 32 = BitVec.ofNat 32 slot := by
    rw [Memory.load_eq_of_read_eq 4 (front.trans stored.symm) (by decide)]
    exact Memory.load_store _ _ _ (by decide)
  have small : (BitVec.ofNat 32 slot.val).toNat = slot := by
    have inside : slot.val < 256 := slot.isLt
    rw [BitVec.toNat_ofNat, Nat.mod_eq_of_lt (by omega)]
  rw [Pinger.pongReceived]
  simp only [word, small, slot.isLt, dif_pos, Fin.eta, taken, if_true]

/-- What a message that comes home does: the pinger calls back the ping in its slot. -/
def Answers (near : Ducttape.SwitchLayer) (pings : PingTable)
    (slot : Fin Pinger.MAX_CONCURRENT_PINGS) (ping : Ping) (home : Message) : Prop :=
  ∃ left passed incoming found,
    Ducttape.incomingFromSwitch near home = some (Error.NONE, left, [.toPinger passed]) ∧
      receiveMessage passed = some (.pongReceived incoming found) ∧
      Pinger.pongReceived found (fun slot => (pings slot).isSome) = some slot ∧
      onPingResponse (some
        { incomingLabel := incoming.incomingLabel
          isError := incoming.isError
          data := found.content.drop 4 }) ping =
        if NumberCompress.Shortest ping.label then .OK else .LABEL_MISMATCH

open Network in
/-- A ping that is delivered to some router is answered, its pong is certain to come home, and the
pinger reports it, as a pong with a different label if the first discriminator of the label that was
pinged is not written in the least width. -/
theorem ping_comes_home {Node : Type*} {net : Network Node} {router : Node}
    {near far : Ducttape.SwitchLayer} {pings : PingTable} {ping : Ping} {buffer : ℤ}
    {stack : Memory} (inSlot : pings slot = some ping)
    (short : (ping.data.getD []).length ≤ Ping_MAX_SIZE) (pinger : near.hasPinger = true)
    (live : ((net.core router).interfaces 1).Live) (even : buffer % 2 = 0) :
    ∃ packet, sendPing buffer stack ping.label (toSend slot ping.data) = some packet ∧
      ∀ hops consumed stop send handed, net.Travels ⟨router, 1, packet⟩ hops consumed stop →
        (net.core stop.node).receiveMessage send stop.iface stop.message =
          some [.forwarded 1 handed] →
        handed.bytes % 2 = 0 →
        ∃ left reply,
          Ducttape.incomingFromSwitch far handed = some (Error.NONE, left, [.toSwitch reply]) ∧
          net.Brings (fun home => home.bytes % 2 = 0 → Answers near pings slot ping home)
            ⟨stop.node, 1, reply⟩ (wayBack (hops ++ [⟨stop.node, stop.iface, 1⟩])) router := by
  have length : (toSend slot ping.data).length = 4 + (ping.data.getD []).length := by
    rw [toSend, List.length_append]
    rfl
  change (ping.data.getD []).length ≤ 256 at short
  have fits : (toSend slot ping.data).length < BUFFER_SZ / 2 := by
    change _ < 2048
    omega
  have small : 12 + (toSend slot ping.data).length < 2 ^ 16 := by omega
  rcases @sendPing_spec buffer stack ping.label _ fits even with
    ⟨packet, sends, isPing, label, -⟩
  refine ⟨packet, sends, fun hops consumed stop send handed travels delivered aligned => ?_⟩
  have arrived := isPing.carry small
    (travels.samePayload.trans (SwitchCore.samePayload_handed delivered))
  rcases @Ducttape.incomingFromSwitch_ping far handed _ _ _ arrived small aligned with
    ⟨left, reply, answers, isPong, reversed⟩
  have long : Headers.SwitchHeader_SIZE ≤ reply.length := by
    rw [isPong.length]
    change 12 ≤ _
    omega
  refine ⟨left, reply, answers, ((homeward_of_delivered live travels delivered) reply long
    reversed).mono fun home comes evenHome => ?_⟩
  rcases Ducttape.incomingFromSwitch_pong (isPong.carry small comes.payload) small evenHome
    pinger with ⟨after, passed, handles, pong, backward⟩
  rcases receiveMessage_isPing pong with ⟨found, receives, content⟩
  refine ⟨after, passed, _, found, handles, receives,
    pongReceived_toSend content (by rw [inSlot]; rfl), ?_⟩
  have data : found.content.drop 4 = ping.data.getD [] := by
    rw [content]
    rfl
  have least := comes.label_iff
  rw [← backward, label] at least
  rw [data, onPingResponse]
  dsimp only
  by_cases shortest : NumberCompress.Shortest ping.label
  · rw [if_neg (not_not.mpr (least.mpr shortest)), if_pos shortest, if_neg]
    · rfl
    · cases ping.data <;> simp
  · rw [if_pos (mt least.mp shortest), if_neg shortest]

/-- A ping to the other one of a pair of nodes -/
def pingPair : Ping where
  label := 0x15
  data := none
  onResponseContext := none
  orphaned := false

open Network in
/-- The ping goes to the other node and comes home. -/
theorem ping_comes_home_pair :
    ∃ reply, pair.Brings (fun home => home.bytes % 2 = 0 →
        Answers Ducttape.withPinger (fun _ => some pingPair) ⟨0, Nat.zero_lt_succ 255⟩ pingPair
          home)
      ⟨true, 1, reply⟩ [⟨true, 1, 2⟩, ⟨false, 2, 1⟩] false := by
  have live : ((pair.core false).interfaces 1).Live := by simp [pair, SwitchInterface.Live]
  have returns := @ping_comes_home 0 Bool pair false Ducttape.withPinger Ducttape.withPinger
    (fun _ => some pingPair) pingPair 0 (fun _ => 0) rfl (Nat.zero_le _) rfl live rfl
  rcases returns with ⟨packet, sends, returns⟩
  rcases @sendPing_spec 0 (fun _ => 0) 0x15 (toSend 0 none) (by decide) rfl with
    ⟨other, same, isPing, label, even⟩
  obtain rfl : packet = other := Option.some.inj (sends.symm.trans same)
  have long : Headers.SwitchHeader_SIZE ≤ packet.length := by
    rw [isPing.length]
    decide
  have first : (pair.core false).receiveMessage SwitchCore.accepting 1 packet =
      some [.forwarded 2 _] :=
    SwitchCore.receiveMessage_of_route (pair.metered false 1) long
      (by
        rw [label]
        decide : (pair.core false).route 1 _ = .forward 2 0x8000000000000001)
  have second : (pair.core true).receiveMessage SwitchCore.accepting 2
      ((pair.core false).relabelled 2 0x8000000000000001 packet) = some [.forwarded 1 _] :=
    SwitchCore.receiveMessage_of_route (pair.metered true 2)
      (by rw [SwitchCore.length_relabelled]; exact long)
      (by
        rw [SwitchCore.messageLabel_relabelled]
        decide : (pair.core true).route 2 _ = .forward 1 0xA800000000000000)
  have travels : pair.Travels ⟨false, 1, packet⟩ [⟨false, 1, 2⟩]
      (NumberCompress.bitsUsedForLabel (Headers.messageLabel packet) + 0)
      ⟨true, 2, (pair.core false).relabelled 2 0x8000000000000001 packet⟩ := by
    refine .hop first ?_ ?_ (.here _)
    · rfl
    · exact Eq.refl _
  rcases returns _ _ _ _ _ travels second (by
    rw [SwitchCore.relabelled, SwitchCore.bytes_meter, SwitchCore.relabelled]
    exact (congrArg (· % 2) (SwitchCore.bytes_meter _ _)).trans even) with ⟨-, reply, -, brings⟩
  exact ⟨reply, brings⟩

end SwitchPinger

end Cjdns
