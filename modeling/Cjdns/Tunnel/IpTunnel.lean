import Cjdns.Wire.Headers

/-!
# The IP tunnel

The connection list of `IpTunnel.c` and the way of a packet from a node to the
TUN device. The list is an array: what lies beyond its `count` entries is
whatever the memory holds, and `getConnection` looks at one entry of it.

The array is as long as it has to be: that it grows by four entries at a time, by
`Allocator_realloc` to a number of bytes in 32 bits, is left out.
-/

namespace Cjdns.IpTunnel

/-- `struct IpTunnel_Connection`; addresses and keys are words in memory order. -/
structure Connection where
  nodeIp6Addr : BitVec 128
  nodeKey : BitVec 256
  connectionIp6 : BitVec 128
  connectionIp4 : BitVec 32
  isOutgoing : Bool
  /-- The connections before this one; the field has the low 31 bits. -/
  number : ℕ
  deriving DecidableEq

/-- The field `number` as it is read, a signed one of 31 bits -/
def Connection.numberField (conn : Connection) : BitVec 31 :=
  BitVec.ofNat 31 conn.number

structure Context where
  connections : ℕ → Connection
  count : ℕ
  nextConnectionNumber : ℕ
  /-- `AddressCalc_addressForPublicKey` -/
  addressForPublicKey : BitVec 256 → BitVec 128

/-- What the tunnel is connected to. -/
structure Handlers where
  /-- `receiveMessage` of the TUN interface, if it is registered -/
  tunInterface : Option (Message → BitVec 8)
  /-- `incomingControlMessage`, which sends nothing to the TUN interface -/
  incomingControlMessage : Message → ℕ → BitVec 8

/-! ## The connection list -/

/-- The loop of `newConnection` over the entries in front of the new one. -/
def makeRoomLoop : ℕ → (ℕ → Connection) → ℕ → (ℕ → Connection) × ℕ
  | 0, connections, conn => (connections, conn)
  | i + 1, connections, conn =>
      if ¬ (connections i).isOutgoing ∧ conn ≠ i + 1 then
        makeRoomLoop i (Function.update connections conn (connections (i + 1))) (i + 1)
      else makeRoomLoop i connections conn

/-- `newConnection`, with the index of the new entry -/
def newConnection (isOutgoing : Bool) (context : Context) : Context × ℕ :=
  let (connections, conn) :=
    if ¬ isOutgoing then makeRoomLoop context.count context.connections context.count
    else (context.connections, context.count)
  ({ context with
      connections := Function.update connections conn
        ⟨0, 0, 0, 0, isOutgoing, context.nextConnectionNumber⟩
      count := context.count + 1
      nextConnectionNumber := context.nextConnectionNumber + 1 }, conn)

/-- `IpTunnel_allowConnection`; an address that is not given is `none`. -/
def allowConnection (publicKeyOfAuthorizedNode : BitVec 256) (ip6Addr : Option (BitVec 128))
    (ip4Addr : Option (BitVec 32)) (context : Context) : Context :=
  let (context, conn) := newConnection false context
  let connection := { context.connections conn with
    nodeKey := publicKeyOfAuthorizedNode
    nodeIp6Addr := context.addressForPublicKey publicKeyOfAuthorizedNode
    connectionIp4 := ip4Addr.getD 0
    connectionIp6 := ip6Addr.getD 0 }
  { context with connections := Function.update context.connections conn connection }

/-- `IpTunnel_connectTo`, up to the request for addresses -/
def connectTo (publicKeyOfNodeToConnectTo : BitVec 256) (context : Context) : Context :=
  let (context, conn) := newConnection true context
  let connection := { context.connections conn with
    nodeKey := publicKeyOfNodeToConnectTo
    nodeIp6Addr := context.addressForPublicKey publicKeyOfNodeToConnectTo }
  { context with connections := Function.update context.connections conn connection }

/-- `connectionByPubKey` -/
def connectionByPubKey (pubKey : BitVec 256) (context : Context) : Option ℕ :=
  (List.range context.count).find? fun i => pubKey = (context.connections i).nodeKey

/-! ## The search for an address -/

/-- The test of `getConnection` on one connection. -/
def addressMatches (memory : Memory) (source : ℤ) (isIp6 isFromTun : Bool) (conn : Connection) :
    Bool :=
  let destination := source + (if isIp6 then 16 else 4)
  let compareAddr :=
    if isFromTun then (if conn.isOutgoing then source else destination)
    else if conn.isOutgoing then destination else source
  if isIp6 then memory.load compareAddr 128 = conn.connectionIp6
  else memory.load compareAddr 32 = conn.connectionIp4

/-- The loop of `getConnection`. -/
def getConnectionLoop (context : Context) (accepts : Connection → Bool) : ℕ → ℕ → Option ℕ
  | 0, _ => none
  | rounds + 1, conn =>
      if accepts (context.connections conn) then some conn
      else getConnectionLoop context accepts rounds (conn + 1)

/-- `getConnection`; its loop goes on while `conn <= lastConnection`. -/
def getConnection (conn : ℕ) (memory : Memory) (sourceAndDest : ℤ) (isIp6 isFromTun : Bool)
    (context : Context) : Option ℕ :=
  let lastConnection := context.count
  getConnectionLoop context (addressMatches memory sourceAndDest isIp6 isFromTun)
    (lastConnection - conn + 1) conn

/-! ## Packets from a node -/

/-- `IpTunnel_PacketInfoHeader_SIZE` -/
abbrev PacketInfoHeader_SIZE : ℕ := 48

/-- `Headers_getIpVersion` -/
def getIpVersion (memory : Memory) (header : ℤ) : BitVec 8 :=
  (memory header &&& 0xF0) >>> 4

/-- The push of the packet type and the call of the TUN interface. -/
def sendToTun (handlers : Handlers) (ethertype : BitVec 16) (message : Message) :
    Option (BitVec 8 × Option Message) :=
  (message.shift 4).map fun message =>
    let memory := message.memory.store message.bytes (0 : BitVec 16)
    let message := { message with memory := memory.store (message.bytes + 2) ethertype }
    match handlers.tunInterface with
    | some receiveMessage => (receiveMessage message, some message)
    | none => (Error.NONE, none)

/-- `ip6FromNode` -/
def ip6FromNode (handlers : Handlers) (message : Message) (conn : ℕ) (context : Context) :
    Option (BitVec 8 × Option Message) :=
  let sourceAddr := message.bytes + 8
  let destinationAddr := message.bytes + 24
  if message.memory.load sourceAddr 128 = 0 ∨ message.memory.load destinationAddr 128 = 0 then
    if message.memory.load sourceAddr 256 = 0 then
      some (handlers.incomingControlMessage message conn, none)
    else some (Error.INVALID, none)
  else if getConnection conn message.memory sourceAddr true false context = none then
    some (Error.INVALID, none)
  else
    -- the return value of the TUN interface is ignored here
    (sendToTun handlers (Endian.hostToBigEndian16 0x86DD) message).map fun sent =>
      (Error.NONE, sent.2)

/-- `ip4FromNode` -/
def ip4FromNode (handlers : Handlers) (message : Message) (conn : ℕ) (context : Context) :
    Option (BitVec 8 × Option Message) :=
  let sourceAddr := message.bytes + 12
  let destAddr := message.bytes + 16
  if message.memory.load sourceAddr 32 = 0 ∨ message.memory.load destAddr 32 = 0 then
    some (Error.INVALID, none)
  else if getConnection conn message.memory sourceAddr false false context = none then
    some (Error.INVALID, none)
  else sendToTun handlers (Endian.hostToBigEndian16 0x0800) message

/-- `incomingFromNode`: its result, and the message that is handed to the TUN interface. -/
def incomingFromNode (handlers : Handlers) (message : Message) (context : Context) :
    Option (BitVec 8 × Option Message) :=
  if message.length < PacketInfoHeader_SIZE then none
  else
    let nodeKey := message.memory.load (message.bytes + 16) 256
    match connectionByPubKey nodeKey context with
    | none => some (Error.NONE, none)
    | some conn =>
        (message.shift (-PacketInfoHeader_SIZE)).bind fun message =>
          if message.length > 40 ∧ getIpVersion message.memory message.bytes = 6 then
            ip6FromNode handlers message conn context
          else if message.length > 20 ∧ getIpVersion message.memory message.bytes = 4 then
            ip4FromNode handlers message conn context
          else some (Error.NONE, none)

/-! ## Source validation -/

section

variable {context : Context} {handlers : Handlers} {message : Message}

/-- The key of the node that a message comes from. -/
def senderKey (message : Message) : BitVec 256 :=
  message.memory.load (message.bytes + 16) 256

def isIp6 (message : Message) : Bool :=
  getIpVersion message.memory (message.bytes + PacketInfoHeader_SIZE) = 6

/-- Where the source address of the packet lies, with the destination address behind it. -/
def sourceAndDest (message : Message) : ℤ :=
  message.bytes + PacketInfoHeader_SIZE + (if isIp6 message then 8 else 12)

/-- A packet that is tunneled if its addresses are right: neither a runt nor a control message. -/
def TunnelPacket (message : Message) : Prop :=
  if isIp6 message then
    PacketInfoHeader_SIZE + 40 < message.length ∧
      message.memory.load (sourceAndDest message) 128 ≠ 0 ∧
      message.memory.load (sourceAndDest message + 16) 128 ≠ 0
  else
    PacketInfoHeader_SIZE + 20 < message.length ∧
      getIpVersion message.memory (message.bytes + PacketInfoHeader_SIZE) = 4 ∧
      message.memory.load (sourceAndDest message) 32 ≠ 0 ∧
      message.memory.load (sourceAndDest message + 4) 32 ≠ 0

/--
The packet has the address issued to a connection, as its source for an
incoming connection and as its destination for an outgoing one.
-/
def HasAddressOf (message : Message) (conn : Connection) : Prop :=
  addressMatches message.memory (sourceAndDest message) (isIp6 message) false conn

theorem getConnectionLoop_eq_none_iff {accepts : Connection → Bool} {rounds conn : ℕ} :
    getConnectionLoop context accepts rounds conn = none ↔
      ∀ other, conn ≤ other → other < conn + rounds → ¬ accepts (context.connections other) := by
  induction rounds generalizing conn with
  | zero =>
      refine iff_of_true rfl ?_
      intro other lower upper
      omega
  | succ rounds ih =>
      rw [getConnectionLoop]
      split_ifs with accepted
      · refine iff_of_false (by simp) ?_
        intro rejected
        exact rejected conn le_rfl (by omega) accepted
      · rw [ih]
        constructor
        · intro rejected other lower upper
          rcases Nat.eq_or_lt_of_le lower with rfl | later
          · exact accepted
          · exact rejected other later (by omega)
        · intro rejected other lower upper
          exact rejected other (by omega) (by omega)

theorem getConnection_eq_none_iff {conn : ℕ} {source : ℤ} {version : Bool}
    (inside : conn ≤ context.count) :
    getConnection conn message.memory source version false context = none ↔
      ∀ other, conn ≤ other → other ≤ context.count →
        ¬ addressMatches message.memory source version false (context.connections other) := by
  rw [getConnection, getConnectionLoop_eq_none_iff]
  have last (other : ℕ) : other < conn + (context.count - conn + 1) ↔ other ≤ context.count := by
    omega
  simp only [last]

theorem connectionByPubKey_eq_some {pubKey : BitVec 256} {conn : ℕ}
    (found : connectionByPubKey pubKey context = some conn) :
    conn < context.count ∧ (context.connections conn).nodeKey = pubKey := by
  have inside := List.mem_of_find?_eq_some found
  have same := List.find?_some found
  simp only [decide_eq_true_eq] at same
  exact ⟨List.mem_range.mp inside, same.symm⟩

/-- Whether an outcome hands a message to the TUN interface. -/
def Delivers (outcome : Option (BitVec 8 × Option Message)) : Prop :=
  ∃ code delivered, outcome = some (code, some delivered)

theorem not_delivers_none {code : BitVec 8} : ¬ Delivers (some (code, none)) := by
  rintro ⟨_, _, same⟩
  simp at same

theorem delivers_map_iff {outcome : Option (BitVec 8 × Option Message)} {code : BitVec 8} :
    Delivers (outcome.map fun sent => (code, sent.2)) ↔ Delivers outcome := by
  rcases outcome with _ | ⟨other, sent⟩
  · simp [Delivers]
  · simp [Delivers]

theorem delivers_sendToTun_iff {ethertype : BitVec 16} {packet : Message}
    (room : 4 ≤ packet.padding) :
    Delivers (sendToTun handlers ethertype packet) ↔ handlers.tunInterface ≠ none := by
  rw [sendToTun, show (4 : ℤ) = ((4 : ℕ) : ℤ) from rfl,
    Message.shift_pos packet (by omega) room, Option.map_some]
  cases registered : handlers.tunInterface with
  | none => exact iff_of_false not_delivers_none (by simp)
  | some receiveMessage => exact iff_of_true ⟨_, _, rfl⟩ (by simp)

theorem delivers_ip6FromNode_iff {packet : Message} {conn : ℕ} (room : 4 ≤ packet.padding) :
    Delivers (ip6FromNode handlers packet conn context) ↔
      handlers.tunInterface ≠ none ∧ packet.memory.load (packet.bytes + 8) 128 ≠ 0 ∧
        packet.memory.load (packet.bytes + 24) 128 ≠ 0 ∧
        getConnection conn packet.memory (packet.bytes + 8) true false context ≠ none := by
  simp only [ip6FromNode]
  split_ifs with zero control unrecognized
  · refine iff_of_false not_delivers_none ?_
    rintro ⟨_, source, destination, _⟩
    exact zero.elim source destination
  · refine iff_of_false not_delivers_none ?_
    rintro ⟨_, source, destination, _⟩
    exact zero.elim source destination
  · exact iff_of_false not_delivers_none fun checks => checks.2.2.2 unrecognized
  · rw [delivers_map_iff, delivers_sendToTun_iff room]
    rw [not_or] at zero
    exact ⟨fun registered => ⟨registered, zero.1, zero.2, unrecognized⟩, fun checks => checks.1⟩

theorem delivers_ip4FromNode_iff {packet : Message} {conn : ℕ} (room : 4 ≤ packet.padding) :
    Delivers (ip4FromNode handlers packet conn context) ↔
      handlers.tunInterface ≠ none ∧ packet.memory.load (packet.bytes + 12) 32 ≠ 0 ∧
        packet.memory.load (packet.bytes + 16) 32 ≠ 0 ∧
        getConnection conn packet.memory (packet.bytes + 12) false false context ≠ none := by
  simp only [ip4FromNode]
  split_ifs with zero unrecognized
  · refine iff_of_false not_delivers_none ?_
    rintro ⟨_, source, destination, _⟩
    exact zero.elim source destination
  · exact iff_of_false not_delivers_none fun checks => checks.2.2.2 unrecognized
  · rw [delivers_sendToTun_iff room]
    rw [not_or] at zero
    exact ⟨fun registered => ⟨registered, zero.1, zero.2, unrecognized⟩, fun checks => checks.1⟩

/-- A connection that the search finds, in terms of the packet as it came from the node. -/
theorem exists_hasAddressOf_iff {first : ℕ} (inside : first ≤ context.count) :
    getConnection first message.memory (sourceAndDest message) (isIp6 message) false context ≠ none ↔
      ∃ other, first ≤ other ∧ other ≤ context.count ∧
        HasAddressOf message (context.connections other) := by
  rw [ne_eq, getConnection_eq_none_iff inside]
  simp only [not_forall, not_not, exists_prop, HasAddressOf]

/-- When a message from a known node gets to the TUN interface. -/
theorem delivers_known_iff {first : ℕ}
    (known : connectionByPubKey (senderKey message) context = some first) :
    Delivers (incomingFromNode handlers message context) ↔
      handlers.tunInterface ≠ none ∧ TunnelPacket message ∧
        ∃ other, first ≤ other ∧ other ≤ context.count ∧
          HasAddressOf message (context.connections other) := by
  have inside : first ≤ context.count := (connectionByPubKey_eq_some known).1.le
  rw [← exists_hasAddressOf_iff inside, incomingFromNode]
  by_cases runt : message.length < PacketInfoHeader_SIZE
  · rw [if_pos runt]
    refine iff_of_false (by simp [Delivers]) ?_
    rintro ⟨_, packet, _⟩
    simp only [TunnelPacket] at packet
    split_ifs at packet <;> exact absurd packet.1 (by omega)
  · rw [if_neg runt]
    change ¬ message.length < 48 at runt
    simp only [show message.memory.load (message.bytes + 16) 256 = senderKey message from rfl, known]
    rw [Message.shift_neg message (not_lt.mp runt), Option.bind_some]
    have room : 4 ≤ message.padding + PacketInfoHeader_SIZE := by
      change 4 ≤ message.padding + 48
      omega
    have version : isIp6 message = true ↔
        getIpVersion message.memory (message.bytes + (PacketInfoHeader_SIZE : ℕ)) = 6 := by
      simp [isIp6]
    simp only
    split_ifs with six four
    · have isSix : isIp6 message = true := version.mpr six.2
      have long : PacketInfoHeader_SIZE + 40 < message.length := by
        change 48 + 40 < message.length
        change message.length - 48 > 40 ∧ _ at six
        omega
      have source : sourceAndDest message = message.bytes + (PacketInfoHeader_SIZE : ℕ) + 8 := by
        simp [sourceAndDest, isSix]
      have destination : message.bytes + (PacketInfoHeader_SIZE : ℕ) + 24 =
          message.bytes + (PacketInfoHeader_SIZE : ℕ) + 8 + 16 := by ring
      rw [delivers_ip6FromNode_iff room]
      simp only [TunnelPacket, isSix, if_true, long, true_and, source, destination, and_assoc]
    · have notSix : isIp6 message = false := by
        rw [Bool.eq_false_iff, ne_eq, version, four.2]
        decide
      have long : PacketInfoHeader_SIZE + 20 < message.length := by
        change 48 + 20 < message.length
        change message.length - 48 > 20 ∧ _ at four
        omega
      have source : sourceAndDest message = message.bytes + (PacketInfoHeader_SIZE : ℕ) + 12 := by
        simp [sourceAndDest, notSix]
      have destination : message.bytes + (PacketInfoHeader_SIZE : ℕ) + 16 =
          message.bytes + (PacketInfoHeader_SIZE : ℕ) + 12 + 4 := by ring
      rw [delivers_ip4FromNode_iff room]
      simp only [TunnelPacket, notSix, Bool.false_eq_true, if_false, long, four.2, true_and, source,
        destination, and_assoc]
    · refine iff_of_false not_delivers_none ?_
      rintro ⟨_, packet, _⟩
      simp only [TunnelPacket] at packet
      split_ifs at packet with isSix
      · have long := packet.1
        change 48 + 40 < message.length at long
        exact six ⟨by omega, version.mp isSix⟩
      · have long := packet.1
        change 48 + 20 < message.length at long
        exact four ⟨by omega, packet.2.1⟩

theorem not_delivers_unknown
    (unknown : connectionByPubKey (senderKey message) context = none) :
    ¬ Delivers (incomingFromNode handlers message context) := by
  rw [incomingFromNode]
  split_ifs
  · simp [Delivers]
  · simp only [show message.memory.load (message.bytes + 16) 256 = senderKey message from rfl,
      unknown]
    exact not_delivers_none

/-- A connection of the sender has the address of the packet. -/
def Authorized (context : Context) (message : Message) : Prop :=
  ∃ conn, conn < context.count ∧ (context.connections conn).nodeKey = senderKey message ∧
    HasAddressOf message (context.connections conn)

/--
Only authorized packets get to the TUN interface exactly where every connection
that the search can hit, from the sender's first one to the entry behind the end
of the list, has the packet's address only if one of the sender's own has it.
-/
theorem delivers_authorized_iff :
    (Delivers (incomingFromNode handlers message context) → Authorized context message) ↔
      (handlers.tunInterface ≠ none → TunnelPacket message → ∀ first other,
        connectionByPubKey (senderKey message) context = some first → first ≤ other →
          other ≤ context.count → HasAddressOf message (context.connections other) →
            Authorized context message) := by
  constructor
  · intro authorized registered packet first other known after inside address
    apply authorized
    rw [delivers_known_iff known]
    exact ⟨registered, packet, other, after, inside, address⟩
  · intro guarded delivers
    cases known : connectionByPubKey (senderKey message) context with
    | none => exact absurd delivers (not_delivers_unknown known)
    | some first =>
        rw [delivers_known_iff known] at delivers
        rcases delivers with ⟨registered, packet, other, after, inside, address⟩
        exact guarded registered packet first other known after inside address

end

/-! ## Another client's address -/

/-- A tunnel with two clients; nothing has been written behind the second one. -/
def twoClients : Context :=
  allowConnection 2 (some 0x200) none (allowConnection 1 (some 0x100) none
    { connections := fun _ => ⟨0, 0, 0, 0, false, 0⟩
      count := 0
      nextConnectionNumber := 0
      addressForPublicKey := fun key => key.setWidth 128 })

/-- An IPv6 packet from the first client, from the address of the second. -/
def spoofed : Message where
  memory := Memory.store (Memory.store (Memory.store (Memory.store (fun _ => 0)
    16 (1 : BitVec 256)) 48 (0x60 : BitVec 8)) 56 (0x200 : BitVec 128)) 72 (0x300 : BitVec 128)
  length := 96
  padding := 0
  bytes := 0

theorem senderKey_spoofed : senderKey spoofed = 1 := by
  decide +kernel

theorem tunnelPacket_spoofed : TunnelPacket spoofed := by
  unfold TunnelPacket
  decide +kernel

/-- The packet gets to the TUN interface, although no connection of its sender has its address. -/
theorem not_authorized_spoofed :
    Delivers (incomingFromNode ⟨some fun _ => Error.NONE, fun _ _ => Error.NONE⟩ spoofed
      twoClients) ∧ ¬ Authorized twoClients spoofed := by
  have known : connectionByPubKey (senderKey spoofed) twoClients = some 0 := by
    rw [senderKey_spoofed]
    decide
  constructor
  · rw [delivers_known_iff known]
    refine ⟨by simp, tunnelPacket_spoofed, 1, by decide, by decide, ?_⟩
    unfold HasAddressOf
    decide +kernel
  · rintro ⟨conn, inside, key, address⟩
    rw [senderKey_spoofed] at key
    change conn < 2 at inside
    interval_cases conn
    · revert address
      unfold HasAddressOf
      decide +kernel
    · revert key
      decide

end Cjdns.IpTunnel
