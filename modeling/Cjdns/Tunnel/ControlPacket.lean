import Cjdns.Tunnel.ControlLength

/-!
# Control messages on the way

The bytes of a control message as `sendControlMessage` leaves them. A packet with these bytes
passes all checks of the node that gets it, and what is aligned on is the content.
-/

namespace Cjdns.IpTunnel

open StandardBencSerializer

/-- The bytes of a word as the little endian host stores it -/
def hostBytes (word : BitVec 16) : BString :=
  [word.extractLsb' 0 8, word.extractLsb' 8 8]

/-- The UDP header of a control message and what is behind it -/
def ControlMessage.udp (message : ControlMessage) : BString :=
  List.replicate 4 0 ++ hostBytes message.length_be ++ hostBytes message.checksum_be ++
    message.content

/-- The bytes of a control message -/
def ControlMessage.toBytes (message : ControlMessage) : BString :=
  message.header.toBytes ++ message.udp

variable {stack : List.Vector (BitVec 8) 512} {dict : Dict} {packet : Message}

/-! ## What is sent -/

/-- The UDP header before the checksum is set, and what is behind it -/
def unchecked (content : BString) : BString :=
  List.replicate 4 0 ++ Bytes.ofWord16 (BitVec.ofNat 16 content.length) ++ List.replicate 2 0 ++
    content

theorem length_unchecked (content : BString) :
    (unchecked content).length = UDPHeader_SIZE + content.length := by
  simp only [unchecked, Bytes.ofWord16, List.length_append, List.length_replicate, List.length_cons,
    List.length_nil]

/-- The checksum of a control message, as the host sees it -/
def contentChecksum (content : BString) : BitVec 16 :=
  (Checksum.Host.mk false).ip6 (List.Vector.replicate 32 0) (unchecked content)
    (Endian.hostToBigEndian32 17)

theorem hostBytes_hostToBigEndian16 (word : BitVec 16) :
    hostBytes (Endian.hostToBigEndian16 word) = Bytes.ofWord16 word := by
  have low : (Endian.byteSwap16 word).extractLsb' 0 8 = word.extractLsb' 8 8 := by
    apply BitVec.eq_of_getLsbD_eq
    intro index inside
    simp [Endian.byteSwap16, inside]
  have high : (Endian.byteSwap16 word).extractLsb' 8 8 = word.extractLsb' 0 8 := by
    apply BitVec.eq_of_getLsbD_eq
    intro index inside
    have above : word.getLsbD (8 + (8 + index)) = false :=
      BitVec.getLsbD_of_ge _ _ (by omega)
    have small : index < 16 := by omega
    simp [Endian.byteSwap16, inside, above, small, show 8 + index < 16 by omega,
      BitVec.getLsbD_eq_getElem]
  rw [hostBytes, Bytes.ofWord16, low, high]

theorem append_ofWord16 (word : BitVec 16) :
    word.extractLsb' 0 8 ++ word.extractLsb' 8 8 = Endian.hostToBigEndian16 word := by
  have bytes := hostBytes_hostToBigEndian16 word
  rw [hostBytes, Bytes.ofWord16, List.cons.injEq, List.cons.injEq] at bytes
  rw [← bytes.1, ← bytes.2.1, Bytes.append_extract]

theorem udpIp6_of_zero {header : IP6Header} (source : header.sourceAddr = List.replicate 16 0)
    (destination : header.destinationAddr = List.replicate 16 0) {bytes : BString}
    (small : bytes.length < 2 ^ 16) :
    Checksum.udpIp6 header bytes = (Checksum.Host.mk false).ip6 (List.Vector.replicate 32 0) bytes
      (Endian.hostToBigEndian32 17) := by
  have length : (BitVec.ofNat 16 bytes.length).toNat = bytes.length := by
    rw [BitVec.toNat_ofNat, Nat.mod_eq_of_lt small]
  rw [Checksum.udpIp6, source, destination, List.replicate_append_replicate]
  have written := Memory.read_write (fun _ => 0) 0 (List.replicate (16 + 16) 0 ++ bytes)
  rw [List.length_append, List.length_replicate, Memory.read_add] at written
  rcases List.append_inj written (by rw [Memory.length_read, List.length_replicate]) with
    ⟨addresses, content⟩
  rw [← Checksum.Host.ip6_read, length]
  congr 1

theorem sendControlMessage_eq (fits : (serializeDictionary dict).length ≤ 512) :
    sendControlMessage stack dict =
      { header :=
          { versionClassAndFlowLabel := 0x6000
            flowLabelLow := 0
            payloadLength := BitVec.ofNat 16 (UDPHeader_SIZE + (serializeDictionary dict).length)
            nextHeader := 17
            hopLimit := 0
            sourceAddr := List.replicate 16 0
            destinationAddr := List.replicate 16 0 }
        length_be :=
          Endian.hostToBigEndian16 (BitVec.ofNat 16 (serializeDictionary dict).length)
        checksum_be := contentChecksum (serializeDictionary dict)
        content := serializeDictionary dict } := by
  have whole := (@contents_eq_iff stack.toList dict).mpr (by
    rw [List.Vector.toList_length]
    exact fits)
  have written := ArrayWriter.length_contents
    (writeDictionary dict (ArrayWriter.new stack.toList)).2
  rw [whole] at written
  rw [sendControlMessage]
  rw [whole, ← written, ← BitVec.ofNat_add,
    Nat.add_comm (serializeDictionary dict).length UDPHeader_SIZE]
  have short := length_unchecked (serializeDictionary dict)
  congr 1
  exact udpIp6_of_zero rfl rfl (by
    change (unchecked (serializeDictionary dict)).length < 2 ^ 16
    rw [short]
    change 8 + _ < 2 ^ 16
    omega)

/-! ## What arrives -/

/-- The UDP header with the checksum is what the checksum is right for. -/
theorem udp_sendControlMessage (fits : (serializeDictionary dict).length ≤ 512) :
    (sendControlMessage stack dict).udp =
      (Checksum.Host.mk false).setWord (unchecked (serializeDictionary dict)) 3
        (contentChecksum (serializeDictionary dict)) := by
  rw [sendControlMessage_eq fits, ControlMessage.udp, hostBytes_hostToBigEndian16]
  rfl

theorem ip6_udp_eq_zero (fits : (serializeDictionary dict).length ≤ 512) :
    (Checksum.Host.mk false).ip6 (List.Vector.replicate 32 0)
      (sendControlMessage stack dict).udp (Endian.hostToBigEndian32 17) = 0 := by
  have long := length_unchecked (serializeDictionary dict)
  rw [udp_sendControlMessage fits]
  have zeroed : (Checksum.Host.mk false).setWord (unchecked (serializeDictionary dict)) 3 0 =
      unchecked (serializeDictionary dict) := rfl
  have stored := (@Checksum.Host.law_ip6 ⟨false⟩ (List.Vector.replicate 32 0)
    (Endian.hostToBigEndian32 17)).stored (unchecked (serializeDictionary dict)) 3
    (by rw [long]; change 8 + _ ≤ _; omega) (by rw [long]; change _ ≤ 8 + _; omega)
  rw [zeroed] at stored
  exact stored

/-- The parts of a packet with the bytes of a control message -/
structure Carries (message : ControlMessage) (packet : Message) : Prop where
  length : packet.length = IP6Header_SIZE + (UDPHeader_SIZE + message.content.length)
  numbers : packet.memory.read packet.bytes 8 = message.header.numbers
  addresses : packet.memory.read (packet.bytes + 8) 32 =
    message.header.sourceAddr ++ message.header.destinationAddr
  udp : packet.memory.read (packet.bytes + IP6Header_SIZE)
    (UDPHeader_SIZE + message.content.length) = message.udp

theorem carries_of_content {message : ControlMessage}
    (addresses : (message.header.sourceAddr ++ message.header.destinationAddr).length = 32)
    (content : packet.content = message.toBytes) : Carries message packet := by
  have udp : message.udp.length = UDPHeader_SIZE + message.content.length := by
    simp only [ControlMessage.udp, hostBytes, List.length_append, List.length_replicate,
      List.length_cons, List.length_nil]
  have numbers : message.header.numbers.length = 8 := rfl
  have length : packet.length = 8 + (32 + (UDPHeader_SIZE + message.content.length)) := by
    rw [← Message.length_content, content, ControlMessage.toBytes, IP6Header.toBytes,
      List.length_append, List.length_append, addresses, udp, numbers, Nat.add_assoc]
  rw [Message.content, length, Memory.read_add, Memory.read_add, ControlMessage.toBytes,
    IP6Header.toBytes, List.append_assoc] at content
  rcases List.append_inj content (by rw [Memory.length_read, numbers]) with ⟨first, rest⟩
  rcases List.append_inj rest (by rw [Memory.length_read, addresses]) with ⟨second, third⟩
  rw [add_assoc] at third
  exact ⟨by rw [length, ← Nat.add_assoc], first, second, third⟩

/-- A control message that is sent passes the checks of the node that gets it. -/
theorem controlContent_of_carries (fits : (serializeDictionary dict).length ≤ 512)
    (carries : Carries (sendControlMessage stack dict) packet) :
    ∃ content, controlContent packet = some (some content) ∧
      content.length = (serializeDictionary dict).length ∧
      content.memory.read content.bytes content.length = serializeDictionary dict := by
  have sum := @ip6_udp_eq_zero stack dict fits
  have numbers := carries.numbers
  have length := carries.length
  have addresses := carries.addresses
  have udp := carries.udp
  rw [sendControlMessage_eq fits] at numbers length addresses udp sum
  dsimp only at numbers length addresses udp
  have payload : payloadLength packet =
      BitVec.ofNat 16 (UDPHeader_SIZE + (serializeDictionary dict).length) := by
    have word := Checksum.Host.word_read packet.memory packet.bytes (show 2 * 2 + 2 ≤ 8 by norm_num)
    rw [numbers] at word
    rw [payloadLength, ← Endian.byteSwap16_byteSwap16 (BitVec.ofNat 16 _)]
    exact congrArg Endian.byteSwap16 (word.symm.trans (append_ofWord16 _))
  have bound : (payloadLength packet).toNat =
      UDPHeader_SIZE + (serializeDictionary dict).length := by
    rw [payload, BitVec.toNat_ofNat]
    exact Nat.mod_eq_of_lt (by change 8 + _ < _; omega)
  have protocol : packet.memory (packet.bytes + 6) = 17 := by
    have byte := Checksum.Host.getD_read packet.memory packet.bytes (show 6 < 8 by norm_num)
    rw [numbers] at byte
    exact byte.symm
  have valid : Checksum.ip6 packet.memory (packet.bytes + 8) (packet.bytes + IP6Header_SIZE)
      (payloadLength packet) (Endian.hostToBigEndian32 17) = 0 := by
    rw [← Checksum.Host.ip6_read, bound, udp, ← sum]
    congr 1
    exact Subtype.ext addresses
  have announced : udpLength packet = BitVec.ofNat 16 (serializeDictionary dict).length := by
    have word := Checksum.Host.word_read packet.memory (packet.bytes + IP6Header_SIZE)
      (show 2 * 2 + 2 ≤ UDPHeader_SIZE + (serializeDictionary dict).length by
        change _ ≤ 8 + _
        omega)
    rw [udp, ControlMessage.udp, hostBytes_hostToBigEndian16] at word
    rw [udpLength, ← Endian.byteSwap16_byteSwap16 (BitVec.ofNat 16 _)]
    exact congrArg Endian.byteSwap16 (word.symm.trans (append_ofWord16 _))
  have split := udp
  rw [ControlMessage.udp, Memory.read_add] at split
  rcases List.append_inj split (by
    rw [Memory.length_read]
    rfl) with ⟨header, content⟩
  have ports : packet.memory.load (packet.bytes + IP6Header_SIZE) 32 = 0 := by
    rw [show UDPHeader_SIZE = 4 + 4 from rfl, Memory.read_add, List.append_assoc] at header
    rcases List.append_inj header (by
      rw [Memory.length_read]
      rfl) with ⟨zeros, -⟩
    rw [← Memory.load_zero (packet.bytes + IP6Header_SIZE)]
    exact Memory.load_eq_of_read_eq 4 (zeros.trans rfl) le_rfl
  have remaining : (payloadLength packet - BitVec.ofNat 16 UDPHeader_SIZE) =
      BitVec.ofNat 16 (serializeDictionary dict).length := by
    rw [payload, BitVec.ofNat_add]
    exact add_sub_cancel_left _ _
  have first : controlContent packet = _ := if_neg (by
    rw [not_or, not_not, not_lt]
    refine ⟨protocol, ?_⟩
    change (payloadLength packet).toNat + 40 ≤ _
    rw [bound, length]
    change 8 + _ + 40 ≤ 40 + (8 + _)
    omega)
  rw [Message.shift_neg packet (show 40 ≤ packet.length by
    rw [length]
    exact Nat.le_add_right _ _), Option.bind_some] at first
  have second := first.trans (if_neg (not_not.mpr valid))
  have third := second.trans (if_neg (by
    rw [not_or, not_not, not_not]
    exact ⟨announced.trans remaining.symm, ports⟩))
  rw [Message.shift_neg _ (show 8 ≤ packet.length - 40 by
    rw [length]
    change _ ≤ 40 + (8 + _) - 40
    omega), Option.map_some] at third
  refine ⟨_, third, ?_, ?_⟩
  · change (payloadLength packet - BitVec.ofNat 16 UDPHeader_SIZE).toNat = _
    rw [remaining, BitVec.toNat_ofNat, Nat.mod_eq_of_lt (by omega)]
  · change packet.memory.read (packet.bytes + 40 + 8)
      (payloadLength packet - BitVec.ofNat 16 UDPHeader_SIZE).toNat = _
    rw [remaining, BitVec.toNat_ofNat, Nat.mod_eq_of_lt (by omega)]
    exact content

/-! ## From one tunnel to the other -/

/-- A packet with so many bytes, with the key of the node that it comes from in front -/
structure Arrives (key : BitVec 256) (bytes : BString) (message : Message) : Prop where
  length : message.length = PacketInfoHeader_SIZE + bytes.length
  sender : senderKey message = key
  packet : message.memory.read (message.bytes + PacketInfoHeader_SIZE) bytes.length = bytes

/-- A control message from another tunnel is taken for one, and parsed with its content. -/
theorem controlContent_of_arrives {key : BitVec 256} {message : Message}
    (fits : (serializeDictionary dict).length ≤ 512)
    (arrives : Arrives key (sendControlMessage stack dict).toBytes message) :
    ∃ packet content behind, message.shift (-PacketInfoHeader_SIZE) = some packet ∧
      (packet.length > 40 ∧ getIpVersion packet.memory packet.bytes = 6 ∧
        packet.memory.load (packet.bytes + 8) 256 = 0) ∧
      controlContent packet = some (some content) ∧
      content.memory.read content.bytes (content.length + 1) =
        newReader (serializeDictionary dict) behind := by
  have shifts := Message.shift_neg message (show PacketInfoHeader_SIZE ≤ message.length by
    rw [arrives.length]
    exact Nat.le_add_right _ _)
  have carries := @carries_of_content _ (sendControlMessage stack dict)
    (by rw [sendControlMessage_eq fits]; rfl) (show Message.content { message with
      length := message.length - PacketInfoHeader_SIZE
      bytes := message.bytes + PacketInfoHeader_SIZE
      padding := message.padding + PacketInfoHeader_SIZE } = _ by
        rw [Message.content]
        dsimp only
        rw [arrives.length, Nat.add_sub_cancel_left]
        exact arrives.packet)
  rcases controlContent_of_carries fits carries with ⟨content, aligned, length, text⟩
  have first := Checksum.Host.getD_read message.memory (message.bytes + PacketInfoHeader_SIZE)
    (show 0 < 8 by norm_num)
  have addresses := carries.addresses
  have long := carries.length
  rw [carries.numbers] at first
  rw [sendControlMessage_eq fits] at first addresses long
  rw [Nat.cast_zero, add_zero] at first
  refine ⟨_, content, content.memory (content.bytes + content.length), shifts, ⟨?_, ?_, ?_⟩,
    aligned, ?_⟩
  · rw [long]
    change 40 < 40 + (8 + _)
    omega
  · rw [getIpVersion]
    dsimp only
    rw [← first]
    exact show ((0x6000 : BitVec 16).extractLsb' 8 8 &&& 0xF0) >>> 4 = 6 by decide
  · rw [← Memory.load_zero (message.bytes + PacketInfoHeader_SIZE + 8)]
    exact Memory.load_eq_of_read_eq 32 (addresses.trans rfl) le_rfl
  · rw [Memory.read_add, text, newReader]
    congr 1
    simp [Memory.read]

end Cjdns.IpTunnel
