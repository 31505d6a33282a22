import Cjdns.Interface.MultiInterface
import Cjdns.Util.Endian
import Cjdns.Util.Hex

/-!
# Ethernet peers

`ETHInterface_Linux.c`. A frame carries two bytes with the id of the sender and the number of
words of padding, and then the message. Towards the multi-interface the message has the address
of the remote and its id in front, and the multi-interface takes a key as long as a
`struct sockaddr_ll` from there. So the key of a peer that a frame comes from contains the first
bytes of the message, and those are not handed on. They go back to the remote in front of
every message to it, and come again in front of its replies.

A connection that is begun has a whole `struct sockaddr_ll` for its key.
-/

namespace Cjdns

/-- The address of an Ethernet device -/
abbrev Mac := Vector (BitVec 8) 6

namespace Mac

/-- The first bytes of a longer address -/
def ofBytes (bytes : List (BitVec 8)) : Mac :=
  .ofFn fun index => bytes.getD index 0

abbrev broadcast : Mac := .replicate 6 0xFF

/-- `AddrTools_printMac` -/
def print (mac : Mac) : List (BitVec 8) :=
  let hex := Hex.encode mac.toList
  [0, 2, 4, 6, 8, 10].flatMap fun index =>
    [hex.getD index 0, hex.getD (index + 1) 0, if index < 10 then 0x3A else 0]

/-- `AddrTools_parseMac`; what is behind the text reads as the byte that ends it. -/
def parse (hexAddr : List (BitVec 8)) : Option Mac :=
  if [2, 5, 8, 11, 14].all fun index => hexAddr.getD index 0 = 0x3A then
    (Hex.decode ([0, 1, 3, 4, 6, 7, 9, 10, 12, 13, 15, 16].map fun index =>
      hexAddr.getD index 0)).map ofBytes
  else none

theorem ofBytes_toList_append (mac : Mac) (rest : List (BitVec 8)) :
    ofBytes (mac.toList ++ rest) = mac := by
  apply Vector.ext
  intro index inside
  simp [ofBytes, List.getElem?_append]

/-- Every address has a text. -/
theorem parse_print (mac : Mac) : parse mac.print = some mac := by
  have decoded := Hex.decode_encode mac.toList
  have size : (Hex.encode mac.toList).length = 12 := by simp [Hex.length_encode]
  rcases bytes : Hex.encode mac.toList with _ | ⟨b0, _ | ⟨b1, _ | ⟨b2, _ | ⟨b3, _ | ⟨b4, _ | ⟨b5,
    _ | ⟨b6, _ | ⟨b7, _ | ⟨b8, _ | ⟨b9, _ | ⟨b10, _ | ⟨b11, rest⟩⟩⟩⟩⟩⟩⟩⟩⟩⟩⟩⟩
  all_goals simp [bytes] at size
  subst size
  rw [bytes] at decoded
  have whole := ofBytes_toList_append mac []
  rw [List.append_nil] at whole
  simp [parse, print, bytes, decoded, whole]

end Mac

/-- A frame on the wire -/
structure Frame where
  dest : Mac
  source : Mac
  payload : List (BitVec 8)

/-- The bytes of a word in the order of the host -/
def littleEndian {width : ℕ} (count : ℕ) (word : BitVec width) : List (BitVec 8) :=
  (List.range count).map fun index => word.extractLsb' (8 * index) 8

/-- `struct sockaddr_ll` -/
structure SockaddrLL where
  sll_family : BitVec 16
  sll_protocol : BitVec 16
  sll_ifindex : BitVec 32
  sll_hatype : BitVec 16
  sll_pkttype : BitVec 8
  sll_halen : BitVec 8
  /-- Eight bytes -/
  sll_addr : List (BitVec 8)

namespace SockaddrLL

/-- `sizeof(struct sockaddr_ll)` -/
abbrev SIZE : ℕ := 20

/-- The memory of the structure -/
def bytes (addr : SockaddrLL) : List (BitVec 8) :=
  littleEndian 2 addr.sll_family ++ littleEndian 2 addr.sll_protocol ++
    littleEndian 4 addr.sll_ifindex ++ littleEndian 2 addr.sll_hatype ++
    [addr.sll_pkttype, addr.sll_halen] ++ addr.sll_addr

end SockaddrLL

/-- `struct ETHInterface`, on a device that has an address of its own -/
structure ETHInterface where
  ifindex : BitVec 32
  id : BitVec 16
  multiIface : MultiInterface
  mac : Mac
  keySize_eq : multiIface.keySize = SockaddrLL.SIZE
  unicast : mac ≠ Mac.broadcast

namespace ETHInterface

abbrev MAX_PACKET_SIZE : ℕ := 1496

abbrev MIN_PACKET_SIZE : ℕ := 46

abbrev PADDING : ℕ := 512

/-- `Ethernet_TYPE_CJDNS` -/
abbrev Ethernet_TYPE_CJDNS : BitVec 16 := Endian.hostToBigEndian16 0xFC00

/-- The `addrBase` that `ETHInterface_new` sets -/
def addrBase (eth : ETHInterface) : SockaddrLL where
  sll_family := 17
  sll_protocol := Ethernet_TYPE_CJDNS
  sll_ifindex := eth.ifindex
  sll_hatype := 1
  sll_pkttype := 3
  sll_halen := 6
  sll_addr := List.replicate 8 0

/-- The loop that counts the words of padding -/
def padLoop : ℕ → ℕ → ℕ
  | 0, _ => 0
  | rounds + 1, length =>
      if length + 2 < MIN_PACKET_SIZE then padLoop rounds (length + 8) + 1 else 0

/-- The words of padding -/
def pad (length : ℕ) : ℕ :=
  padLoop MIN_PACKET_SIZE length

/-- Makes the message longer. The content moves to the front of zeros that were in front of it,
and what it leaves behind stays. -/
def makeLonger (amount : ℕ) (message : PaddedMessage) : Option PaddedMessage :=
  if amount ≤ message.padding then
    some
      { padding := message.padding - amount
        content := message.content ++
          (List.replicate amount 0 ++ message.content).drop message.content.length }
  else none

/-- The id and the padding, as they are in a frame -/
def padAndId (pad : ℕ) (eth : ETHInterface) : List (BitVec 8) :=
  littleEndian 2 (Endian.hostToBigEndian16 ((eth.id <<< 3) ||| BitVec.ofNat 16 pad))

/-- `sendMessage`, with the frame that it gives to the socket -/
def sendMessage (message : PaddedMessage) (eth : ETHInterface) : Option Frame :=
  (message.pop 8).bind fun popped =>
    let pad := pad popped.2.content.length
    (if pad > 0 then makeLonger (pad * 8) popped.2 else some popped.2).bind fun message =>
      if pad < 8 then
        (message.push (eth.padAndId pad)).map fun message =>
          { dest := Mac.ofBytes popped.1, source := eth.mac, payload := message.content }
      else none

/-- `sendMessage` of the interface of a peer -/
def sendToPeer (message : PaddedMessage) (peer : ℕ) (eth : ETHInterface) : Option Frame :=
  (eth.multiIface.sendMessage message peer).bind fun message => eth.sendMessage message

end ETHInterface

namespace Frame

/-- What `recvfrom` puts into the buffer -/
def received (frame : Frame) : List (BitVec 8) :=
  frame.payload.take (ETHInterface.MAX_PACKET_SIZE + 2)

/-- The word in the first two bytes -/
def idAndPadding (frame : Frame) : BitVec 16 :=
  Endian.bigEndianToHost16 (frame.received.getD 1 0 ++ frame.received.getD 0 0)

/-- The number of bytes of padding -/
def behind (frame : Frame) : ℕ :=
  (frame.idAndPadding &&& 7).toNat * 8

def id (frame : Frame) : BitVec 16 :=
  frame.idAndPadding >>> 3

/-- What is between the first two bytes and the padding -/
def message (frame : Frame) : List (BitVec 8) :=
  (frame.received.drop 2).take (frame.received.length - 2 - frame.behind)

end Frame

namespace ETHInterface

/-- `handleEvent`, for a frame that is handed to a peer. A beacon is not. A frame that is too short
fails an assertion. -/
def handleEvent (frame : Frame) (eth : ETHInterface) : Option MultiInterface.Handed :=
  if frame.dest = Mac.broadcast then none
  else if frame.received.length < 2 + frame.behind then none
  else
    let message : PaddedMessage := { padding := PADDING, content := frame.message }
    ((message.push (littleEndian 2 frame.id)).bind fun message =>
      message.push frame.source.toList).bind fun message =>
        eth.multiIface.receiveMessage message

/-- `ETHInterface_beginConnection` where `InterfaceController_registerPeer` succeeds, with the peer
whose interface it obtains -/
def beginConnection (macAddress : List (BitVec 8)) (eth : ETHInterface) :
    Option MultiInterface.Found :=
  (Mac.parse macAddress).map fun mac =>
    eth.multiIface.peerForKey
      { eth.addrBase with sll_addr := mac.toList ++ eth.addrBase.sll_addr.drop 6 }.bytes

/-- An interface as it is later on, when peers have come and gone since a state of its
multi-interface -/
structure Continues (eth : ETHInterface) (mif : MultiInterface) (later : ETHInterface) : Prop where
  ifindex_eq : later.ifindex = eth.ifindex
  id_eq : later.id = eth.id
  mac_eq : later.mac = eth.mac
  runs : mif.Later later.multiIface

/-- Everything that is sent to the peer goes to the address. -/
def KeepsAddress (mac : Mac) (peer : ℕ) (eth : ETHInterface) (mif : MultiInterface) : Prop :=
  ∀ later, Continues eth mif later → ∀ message frame,
    later.sendToPeer message peer = some frame → frame.dest = mac

/-- A message to the peer that a frame was handed to, and a reply to it -/
structure Exchange (near : ETHInterface) (frame : Frame) (handed : MultiInterface.Handed) where
  sending : ETHInterface
  continues : Continues near handed.mif sending
  message : PaddedMessage
  sent : Frame
  sends : sending.sendToPeer message handed.peer = some sent
  remote : ETHInterface
  remote_mac : remote.mac = frame.source
  remote_id : remote.id <<< 3 >>> 3 = frame.id
  remoteHanded : MultiInterface.Handed
  arrives : remote.handleEvent sent = some remoteHanded
  replying : ETHInterface
  remoteContinues : Continues remote remoteHanded.mif replying
  reply : PaddedMessage
  answer : Frame
  answers : replying.sendToPeer reply remoteHanded.peer = some answer
  receiving : ETHInterface
  goesOn : Continues sending sending.multiIface receiving
  /-- The peer has not been freed. -/
  still : (receiving.multiIface.keyOf handed.peer).isSome

/-- The reply is handed to the peer that the message went to, byte for byte. -/
def Exchange.Returns {near : ETHInterface} {frame : Frame} {handed : MultiInterface.Handed}
    (exchange : Exchange near frame handed) : Prop :=
  ∃ back, exchange.receiving.handleEvent exchange.answer = some back ∧
    back.peer = handed.peer ∧ back.msg.content = exchange.reply.content

/-- The address that a connection goes to instead: the family, the protocol and half of the index
of the device -/
def standIn (eth : ETHInterface) : Mac :=
  Mac.ofBytes eth.addrBase.bytes

/-! ## Frames -/

theorem makeLonger_eq_some {amount : ℕ} {message longer : PaddedMessage}
    (made : makeLonger amount message = some longer) :
    ∃ tail, tail.length = amount ∧ longer.content = message.content ++ tail := by
  rw [makeLonger, Option.ite_none_right_eq_some, Option.some.injEq] at made
  rcases made with ⟨_, rfl⟩
  refine ⟨_, ?_, rfl⟩
  rw [List.length_drop, List.length_append, List.length_replicate, Nat.add_sub_cancel]

/-- A frame has the id and the padding, the message, and the padding. -/
theorem sendMessage_eq_some {message : PaddedMessage} {eth : ETHInterface} {frame : Frame}
    (sends : eth.sendMessage message = some frame) :
    8 ≤ message.content.length ∧ frame.dest = Mac.ofBytes (message.content.take 8) ∧
      frame.source = eth.mac ∧ ∃ pad tail, pad < 8 ∧ tail.length = pad * 8 ∧
        frame.payload = eth.padAndId pad ++ (message.content.drop 8 ++ tail) := by
  simp only [sendMessage, Option.bind_eq_some_iff, Option.ite_none_right_eq_some,
    Option.map_eq_some_iff] at sends
  rcases sends with ⟨popped, pops, longer, padded, small, pushed, pushes, rfl⟩
  rcases PaddedMessage.pop_eq_some pops with ⟨enough, address, rest⟩
  refine ⟨enough, by rw [address], rfl, pad popped.2.content.length, ?_⟩
  have whole := PaddedMessage.push_eq_some pushes
  split_ifs at padded with some
  · rcases makeLonger_eq_some padded with ⟨tail, size, same⟩
    exact ⟨tail, small, size, by rw [whole, same, rest]⟩
  · rw [Option.some.injEq] at padded
    subst padded
    refine ⟨[], small, by simp; omega, by rw [whole, rest, List.append_nil]⟩

theorem sendToPeer_eq_some {message : PaddedMessage} {peer : ℕ} {eth : ETHInterface} {frame : Frame}
    (sends : eth.sendToPeer message peer = some frame) :
    ∃ key, eth.multiIface.keyOf peer = some key ∧
      ∃ whole : PaddedMessage, whole.content = key ++ message.content ∧
        eth.sendMessage whole = some frame := by
  simp only [sendToPeer, MultiInterface.sendMessage, Option.bind_eq_some_iff] at sends
  rcases sends with ⟨whole, ⟨key, known, pushes⟩, sends⟩
  exact ⟨key, known, whole, PaddedMessage.push_eq_some pushes, sends⟩

/-- The multi-interface gets the address, the id and the message. -/
theorem handleEvent_eq_some_iff {frame : Frame} {eth : ETHInterface}
    {handed : MultiInterface.Handed} :
    eth.handleEvent frame = some handed ↔ frame.dest ≠ Mac.broadcast ∧
      2 + frame.behind ≤ frame.received.length ∧ 12 ≤ frame.message.length ∧
      let found := eth.multiIface.peerForKey
        (frame.source.toList ++ (littleEndian 2 frame.id ++ frame.message.take 12))
      handed =
        { mif := found.mif
          peer := found.peer
          msg := { padding := 524, content := frame.message.drop 12 } } := by
  have size : (littleEndian 2 frame.id).length = 2 := by simp [littleEndian]
  unfold handleEvent
  by_cases beacon : frame.dest = Mac.broadcast
  · simp [beacon]
  by_cases short : frame.received.length < 2 + frame.behind
  · simp [beacon, short]
  rw [if_neg beacon, if_neg short]
  simp only [PaddedMessage.push, size, Vector.length_toList, PADDING, Nat.reduceLeDiff, if_true,
    Nat.reduceSub, Option.bind_some, MultiInterface.receiveMessage, PaddedMessage.pop, eth.keySize_eq,
    SockaddrLL.SIZE, Nat.reduceLT, if_false, List.length_append]
  by_cases enough : 12 ≤ frame.message.length
  · rw [if_pos (by omega)]
    have front : (frame.source.toList ++ (littleEndian 2 frame.id ++ frame.message)).take 20 =
        frame.source.toList ++ (littleEndian 2 frame.id ++ frame.message.take 12) := by
      simp [List.take_append, List.take_of_length_le, size]
    have back : (frame.source.toList ++ (littleEndian 2 frame.id ++ frame.message)).drop 20 =
        frame.message.drop 12 := by
      simp [List.drop_append, List.drop_eq_nil_of_le, size]
    simp [front, back, beacon, enough, eq_comm, Nat.not_lt.mp short]
  · rw [if_neg (by omega)]
    simp [enough]

/-! ## What a frame says -/

/-- The id and the padding come through. -/
theorem word_padAndId (word : BitVec 16) :
    word.extractLsb' 8 8 ++ word.extractLsb' 0 8 = word := by
  apply BitVec.eq_of_getLsbD_eq
  intro index inside
  rw [BitVec.getLsbD_append]
  split_ifs with low
  · simp [low]
  · rw [BitVec.getLsbD_extractLsb']
    rw [show 8 + (index - 8) = index by omega]
    simp
    omega

theorem idAndPadding_of_payload {frame : Frame} {eth : ETHInterface} {pad : ℕ}
    {rest : List (BitVec 8)} (whole : frame.payload = eth.padAndId pad ++ rest) :
    frame.idAndPadding = (eth.id <<< 3) ||| BitVec.ofNat 16 pad := by
  have first : frame.received.getD 0 0 =
      (Endian.hostToBigEndian16 ((eth.id <<< 3) ||| BitVec.ofNat 16 pad)).extractLsb' 0 8 := by
    simp [Frame.received, whole, padAndId, littleEndian, List.range_succ]
  have second : frame.received.getD 1 0 =
      (Endian.hostToBigEndian16 ((eth.id <<< 3) ||| BitVec.ofNat 16 pad)).extractLsb' 8 8 := by
    simp [Frame.received, whole, padAndId, littleEndian, List.range_succ]
  rw [Frame.idAndPadding, first, second, word_padAndId]
  exact Endian.byteSwap16_byteSwap16 _

/-- The id loses its high bits, and the padding is small enough not to. -/
theorem id_of_payload {frame : Frame} {eth : ETHInterface} {pad : ℕ} {rest : List (BitVec 8)}
    (small : pad < 8) (whole : frame.payload = eth.padAndId pad ++ rest) :
    frame.id = eth.id <<< 3 >>> 3 ∧ frame.behind = pad * 8 := by
  rw [Frame.id, Frame.behind, idAndPadding_of_payload whole]
  constructor
  · have none : BitVec.ofNat 16 pad >>> 3 = 0#16 := by
      interval_cases pad <;> rfl
    rw [BitVec.ushiftRight_or_distrib, none, BitVec.or_zero]
  · have low : (eth.id <<< 3 ||| BitVec.ofNat 16 pad) &&& 7 = BitVec.ofNat 16 pad := by
      have high : eth.id <<< 3 &&& 7 = 0#16 := by
        apply BitVec.eq_of_getLsbD_eq
        intro index inside
        interval_cases index <;> simp
      have kept : BitVec.ofNat 16 pad &&& 7 = BitVec.ofNat 16 pad := by
        interval_cases pad <;> rfl
      rw [BitVec.and_comm, BitVec.and_or_distrib_left, BitVec.and_comm, high, BitVec.and_comm, kept,
        BitVec.zero_or]
    rw [low, BitVec.toNat_ofNat, Nat.mod_eq_of_lt (by omega)]

/-- As much of the message as fits into the buffer comes through. -/
theorem message_of_payload {frame : Frame} {eth : ETHInterface} {pad : ℕ}
    {body tail : List (BitVec 8)} (small : pad < 8) (padded : tail.length = pad * 8)
    (whole : frame.payload = eth.padAndId pad ++ (body ++ tail)) :
    frame.received.length = min (MAX_PACKET_SIZE + 2) (2 + (body.length + pad * 8)) ∧
      frame.message = body.take (frame.received.length - 2 - pad * 8) := by
  have size : (eth.padAndId pad).length = 2 := by simp [padAndId, littleEndian]
  have length : frame.received.length =
      min (MAX_PACKET_SIZE + 2) (2 + (body.length + pad * 8)) := by
    rw [Frame.received, List.length_take, whole, List.length_append, List.length_append, size,
      padded]
  refine ⟨length, ?_⟩
  have dropped : frame.received.drop 2 = (body ++ tail).take MAX_PACKET_SIZE := by
    rw [Frame.received, List.drop_take, whole, List.drop_left' size, Nat.add_sub_cancel]
  rw [Frame.message, (id_of_payload small whole).2, dropped, List.take_take,
    List.take_append_of_le_length (by omega)]
  congr 1
  omega

/-! ## Keys -/

/-- The key of the peer that a frame is handed to, in front of something -/
theorem key_parts (source : Mac) (id : BitVec 16) (first rest : List (BitVec 8)) :
    Mac.ofBytes ((source.toList ++ (littleEndian 2 id ++ first) ++ rest).take 8) = source ∧
      (source.toList ++ (littleEndian 2 id ++ first) ++ rest).drop 8 = first ++ rest := by
  have size : (source.toList ++ littleEndian 2 id).length = 8 := by simp [littleEndian]
  have same : source.toList ++ (littleEndian 2 id ++ first) ++ rest =
      (source.toList ++ littleEndian 2 id) ++ (first ++ rest) := by
    simp only [List.append_assoc]
  rw [same, List.take_left' size, List.drop_left' size]
  exact ⟨Mac.ofBytes_toList_append _ _, rfl⟩

/-- A frame is handed to a peer with its address, its id and the first bytes of its message. -/
theorem keyOf_of_handed {near : ETHInterface} {frame : Frame} {handed : MultiInterface.Handed}
    (arrived : near.handleEvent frame = some handed) :
    handed.mif.keyOf handed.peer =
      some (frame.source.toList ++ (littleEndian 2 frame.id ++ frame.message.take 12)) := by
  rcases handleEvent_eq_some_iff.mp arrived with ⟨-, -, -, rfl⟩
  exact MultiInterface.keyOf_peerForKey ..

/-- What is sent to a peer that was handed a frame -/
theorem sendToPeer_of_keyOf {eth : ETHInterface} {peer : ℕ} {source : Mac} {id : BitVec 16}
    {first : List (BitVec 8)} {message : PaddedMessage} {frame : Frame}
    (known : eth.multiIface.keyOf peer = some (source.toList ++ (littleEndian 2 id ++ first)))
    (sends : eth.sendToPeer message peer = some frame) :
    frame.dest = source ∧ frame.source = eth.mac ∧ ∃ pad tail, pad < 8 ∧
      tail.length = pad * 8 ∧
        frame.payload = eth.padAndId pad ++ ((first ++ message.content) ++ tail) := by
  rcases sendToPeer_eq_some sends with ⟨key, keyed, whole, content, sends⟩
  rw [known, Option.some.injEq] at keyed
  rcases sendMessage_eq_some sends with ⟨-, dest, own, pad, tail, small, padded, payload⟩
  rcases key_parts source id first message.content with ⟨address, rest⟩
  rw [content, ← keyed] at dest payload
  exact ⟨dest.trans address, own, pad, tail, small, padded, by rw [payload, rest]⟩

/-- The key of a peer that was handed a frame, later on -/
theorem Continues.keyOf {near later : ETHInterface} {mif : MultiInterface} {peer : ℕ}
    {key other : List (BitVec 8)} (continues : Continues near mif later)
    (known : mif.keyOf peer = some key) (still : later.multiIface.keyOf peer = some other) :
    later.multiIface.keyOf peer = some key := by
  rw [still, continues.runs.keyOf known still]

theorem exists_keyOf_of_sends {eth : ETHInterface} {peer : ℕ} {message : PaddedMessage}
    {frame : Frame}
    (sends : eth.sendToPeer message peer = some frame) :
    ∃ key, eth.multiIface.keyOf peer = some key := by
  rcases sendToPeer_eq_some sends with ⟨key, keyed, _⟩
  exact ⟨key, keyed⟩

theorem keepsAddress_of_handed {near : ETHInterface} {frame : Frame}
    {handed : MultiInterface.Handed} (arrived : near.handleEvent frame = some handed) :
    KeepsAddress frame.source handed.peer near handed.mif := by
  intro later continues message sent sends
  rcases exists_keyOf_of_sends sends with ⟨key, still⟩
  exact (sendToPeer_of_keyOf (continues.keyOf (keyOf_of_handed arrived) still) sends).1

/-- A reply returns if its frame fits into the buffer. -/
theorem Exchange.returns_iff {near : ETHInterface} {frame : Frame}
    {handed : MultiInterface.Handed} (arrived : near.handleEvent frame = some handed)
    (exchange : Exchange near frame handed) :
    exchange.Returns ↔ exchange.answer.payload.length ≤ MAX_PACKET_SIZE + 2 := by
  rcases handleEvent_eq_some_iff.mp arrived with ⟨-, -, enough, -⟩
  generalize front : frame.message.take 12 = first at *
  have twelve : first.length = 12 := by
    rw [← front, List.length_take]
    omega
  -- The message to the peer has the first bytes of the frame in front.
  rcases exists_keyOf_of_sends exchange.sends with ⟨key, still⟩
  have known := keyOf_of_handed arrived
  rw [front] at known
  have sending := exchange.continues.keyOf known still
  rcases sendToPeer_of_keyOf sending exchange.sends with
    ⟨-, sentSource, pad, tail, small, padded, payload⟩
  -- So the remote has them in the key.
  rcases handleEvent_eq_some_iff.mp exchange.arrives with ⟨-, -, sentEnough, -⟩
  have remoteFront : exchange.sent.message.take 12 = first := by
    rw [(message_of_payload small padded payload).2] at sentEnough ⊢
    rw [List.length_take, List.length_append] at sentEnough
    rw [List.take_take, Nat.min_eq_left (by omega), List.take_left' twelve]
  have remoteKnown := keyOf_of_handed exchange.arrives
  rw [remoteFront] at remoteKnown
  -- The reply has them in front as well, and is found to be from the same peer.
  rcases exists_keyOf_of_sends exchange.answers with ⟨key, remoteStill⟩
  have replying := exchange.remoteContinues.keyOf remoteKnown remoteStill
  rcases sendToPeer_of_keyOf replying exchange.answers with
    ⟨dest, source, pad, tail, small, padded, payload⟩
  have sameId : exchange.answer.id = frame.id := by
    rw [(id_of_payload small payload).1, exchange.remoteContinues.id_eq, exchange.remote_id]
  have sameSource : exchange.answer.source = frame.source := by
    rw [source, exchange.remoteContinues.mac_eq, exchange.remote_mac]
  have unicast : exchange.answer.dest ≠ Mac.broadcast := by
    rw [dest, sentSource, ← exchange.goesOn.mac_eq]
    exact exchange.receiving.unicast
  rcases message_of_payload small padded payload with ⟨length, message⟩
  have behind := (id_of_payload small payload).2
  have total : exchange.answer.payload.length =
      2 + ((first ++ exchange.reply.content).length + pad * 8) := by
    rw [payload, List.length_append, List.length_append, padded]
    simp [padAndId, littleEndian]
  rw [List.length_append, twelve] at length total
  have maximum : MAX_PACKET_SIZE = 1496 := rfl
  have returned : exchange.receiving.handleEvent exchange.answer = some
      { mif := exchange.receiving.multiIface
        peer := handed.peer
        msg := { padding := 524, content := exchange.answer.message.drop 12 } } := by
    have long : 12 ≤ exchange.answer.message.length := by
      rw [message, List.length_take, List.length_append, twelve]
      omega
    refine handleEvent_eq_some_iff.mpr ⟨unicast, by omega, long, ?_⟩
    have answerFront : exchange.answer.message.take 12 = first := by
      rw [message, List.take_take, Nat.min_eq_left (by omega), List.take_left' twelve]
    rcases Option.isSome_iff_exists.mp exchange.still with ⟨other, still⟩
    have receiving := exchange.goesOn.keyOf sending still
    rw [sameSource, sameId, answerFront, MultiInterface.peerForKey_of_keyOf receiving]
  have content : exchange.answer.message.drop 12 = exchange.reply.content.take
      (exchange.answer.received.length - 2 - pad * 8 - 12) := by
    rw [message, List.drop_take, List.drop_left' twelve]
  constructor
  · rintro ⟨back, same, -, whole⟩
    rw [returned, Option.some.injEq] at same
    subst same
    have shorter := congrArg List.length (content.symm.trans whole)
    rw [List.length_take] at shorter
    omega
  · intro fits
    refine ⟨_, returned, rfl, ?_⟩
    rw [content, List.take_of_length_le (by omega)]

/-! ## Connections that are begun -/

/-- What is sent on a connection that is begun goes by the first bytes of the structure. -/
theorem dest_of_keyOf {eth : ETHInterface} {peer : ℕ} {base : SockaddrLL}
    {addr : List (BitVec 8)} {message : PaddedMessage} {frame : Frame}
    (known : eth.multiIface.keyOf peer = some { base with sll_addr := addr }.bytes)
    (sends : eth.sendToPeer message peer = some frame) :
    frame.dest = Mac.ofBytes base.bytes := by
  rcases sendToPeer_eq_some sends with ⟨key, keyed, whole, content, sends⟩
  rw [known, Option.some.injEq] at keyed
  rw [(sendMessage_eq_some sends).2.1, content, ← keyed]
  rfl

/-- An empty message with enough padding can be sent to a peer. -/
theorem sendToPeer_isSome {eth : ETHInterface} {peer : ℕ} {key : List (BitVec 8)}
    (known : eth.multiIface.keyOf peer = some key) (size : key.length = SockaddrLL.SIZE) :
    (eth.sendToPeer { padding := PADDING, content := [] } peer).isSome := by
  have twelve : pad 12 = 4 := rfl
  simp [sendToPeer, MultiInterface.sendMessage, known, PaddedMessage.push, size, PADDING,
    SockaddrLL.SIZE, sendMessage, PaddedMessage.pop, twelve, makeLonger, padAndId, littleEndian]

theorem keepsAddress_of_begun_iff {eth : ETHInterface} {text : List (BitVec 8)} {mac : Mac}
    {found : MultiInterface.Found} (parses : Mac.parse text = some mac)
    (begins : eth.beginConnection text = some found) :
    KeepsAddress mac found.peer eth found.mif ↔ mac = eth.standIn := by
  rw [beginConnection, parses, Option.map_some, Option.some.injEq] at begins
  subst begins
  generalize addressed : mac.toList ++ eth.addrBase.sll_addr.drop 6 = addr
  have eight : addr.length = 8 := by simp [← addressed, addrBase]
  have known := MultiInterface.keyOf_peerForKey { eth.addrBase with sll_addr := addr }.bytes
    eth.multiIface
  have size := (MultiInterface.keySize_peerForKey { eth.addrBase with sll_addr := addr }.bytes
    eth.multiIface).trans eth.keySize_eq
  constructor
  · intro keeps
    let now : ETHInterface := { eth with multiIface := _, keySize_eq := size }
    have sends := @sendToPeer_isSome now _ _ known
      (by simp [SockaddrLL.bytes, littleEndian, eight])
    rcases Option.isSome_iff_exists.mp sends with ⟨frame, sends⟩
    rw [← keeps now ⟨rfl, rfl, rfl, .initial rfl⟩ _ frame sends]
    exact @dest_of_keyOf now _ _ _ _ _ known sends
  · rintro rfl later continues message frame sends
    rcases exists_keyOf_of_sends sends with ⟨key, still⟩
    exact dest_of_keyOf (continues.keyOf known still) sends

/-- A connection that is begun keeps its address if that is what the first bytes of the structure
happen to be. A peer that a frame comes from keeps its address, and the replies to it return if
their frames fit into the buffer. -/
theorem keepsAddress_iff (near : ETHInterface) :
    (∀ (text : List (BitVec 8)) (mac : Mac) (found : MultiInterface.Found),
      Mac.parse text = some mac → near.beginConnection text = some found →
        (KeepsAddress mac found.peer near found.mif ↔ mac = near.standIn)) ∧
      ∀ (frame : Frame) (handed : MultiInterface.Handed),
        near.handleEvent frame = some handed →
          KeepsAddress frame.source handed.peer near handed.mif ∧
            ∀ exchange : Exchange near frame handed,
              exchange.Returns ↔ exchange.answer.payload.length ≤ MAX_PACKET_SIZE + 2 :=
  ⟨fun _ _ _ parses begins => keepsAddress_of_begun_iff parses begins,
    fun _ _ arrived => ⟨keepsAddress_of_handed arrived, fun exchange =>
      exchange.returns_iff arrived⟩⟩

/-- The interface of a device before any peer -/
def fresh (id : BitVec 16) (last : BitVec 8) : ETHInterface where
  ifindex := 2
  id := id
  multiIface := .new SockaddrLL.SIZE
  mac := #v[0x00, 0x11, 0x22, 0x33, 0x44, last]
  keySize_eq := rfl
  unicast := by decide +revert

/-- A frame to that interface from another device -/
def hello : Frame where
  dest := (fresh 7 0x55).mac
  source := (fresh 9 0x66).mac
  payload := (fresh 9 0x66).padAndId 0 ++ List.replicate 44 1

/-- Another device says something, is answered, and replies. -/
theorem keepsAddress_of_hello : ∃ handed, (fresh 7 0x55).handleEvent hello = some handed ∧
    KeepsAddress hello.source handed.peer (fresh 7 0x55) handed.mif ∧
      ∃ exchange : Exchange (fresh 7 0x55) hello handed, exchange.Returns := by
  let handed := ((fresh 7 0x55).handleEvent hello).get (by decide +kernel)
  let sending : ETHInterface :=
    { fresh 7 0x55 with multiIface := handed.mif, keySize_eq := by decide +kernel }
  let message : PaddedMessage := { padding := PADDING, content := [1, 2, 3] }
  let sent := (sending.sendToPeer message handed.peer).get (by decide +kernel)
  let remoteHanded := ((fresh 9 0x66).handleEvent sent).get (by decide +kernel)
  let replying : ETHInterface :=
    { fresh 9 0x66 with multiIface := remoteHanded.mif, keySize_eq := by decide +kernel }
  let reply : PaddedMessage := { padding := PADDING, content := [4, 5] }
  let answer := (replying.sendToPeer reply remoteHanded.peer).get (by decide +kernel)
  have arrived : (fresh 7 0x55).handleEvent hello = some handed := (Option.some_get _).symm
  let exchange : Exchange (fresh 7 0x55) hello handed :=
    { sending := sending
      continues := ⟨rfl, rfl, rfl, .initial rfl⟩
      message := message
      sent := sent
      sends := (Option.some_get _).symm
      remote := fresh 9 0x66
      remote_mac := rfl
      remote_id := by decide +kernel
      remoteHanded := remoteHanded
      arrives := (Option.some_get _).symm
      replying := replying
      remoteContinues := ⟨rfl, rfl, rfl, .initial rfl⟩
      reply := reply
      answer := answer
      answers := (Option.some_get _).symm
      receiving := sending
      goesOn := ⟨rfl, rfl, rfl, .initial rfl⟩
      still := by decide +kernel }
  rcases (keepsAddress_iff _).2 _ _ arrived with ⟨keeps, returns⟩
  exact ⟨handed, arrived, keeps, exchange, (returns exchange).mpr (by decide +kernel)⟩

/-- A connection to an address of its own goes elsewhere. -/
theorem begun_elsewhere : ∃ (mac : Mac) (found : MultiInterface.Found),
    Mac.parse mac.print = some mac ∧
      (fresh 7 0x55).beginConnection mac.print = some found ∧
        ¬ KeepsAddress mac found.peer (fresh 7 0x55) found.mif := by
  let mac : Mac := #v[0x00, 0x11, 0x22, 0x33, 0x44, 0x66]
  have parses := Mac.parse_print mac
  refine ⟨mac, _, parses, by rw [beginConnection, parses]; rfl, fun keeps => ?_⟩
  rw [keepsAddress_of_begun_iff parses (by rw [beginConnection, parses]; rfl)] at keeps
  exact absurd keeps (by decide +kernel)

end ETHInterface

end Cjdns
