import Cjdns.Tunnel.ControlPacket
import Cjdns.Tunnel.Polling

/-!
# Leases of addresses

A node that connects to another one asks for addresses, and gets those that it was authorized with.
The question and the answer are control messages, so what counts is that each passes the checks at
the other end and that the memory of both ends lasts for it.
-/

namespace Cjdns.IpTunnel

open StandardBencSerializer

/-! ## Memory -/

/-- An allocation goes well if there is room for it. -/
theorem allocatorMalloc_of_room {size : ℕ} {context : BufferAllocator.Context}
    (room : aligned context.pointer.toNat + size < context.endPointer.toNat) :
    ∃ pointer after, BufferAllocator.allocatorMalloc (BitVec.ofNat 64 size) context =
        .ok (pointer, after) ∧ after.pointer.toNat = aligned context.pointer.toNat + size ∧
      after.endPointer = context.endPointer := by
  have top := context.endPointer.isLt
  rw [aligned] at room
  have start : (BufferAllocator.getAligned context.pointer).toNat =
      aligned context.pointer.toNat := by
    rw [BufferAllocator.toNat_getAligned, aligned]
    omega
  have stop : (BufferAllocator.getAligned context.pointer + BitVec.ofNat 64 size).toNat =
      aligned context.pointer.toNat + size := by
    rw [BitVec.toNat_add, start, BitVec.toNat_ofNat, aligned]
    omega
  refine ⟨BufferAllocator.getAligned context.pointer, { context with
    pointer := BufferAllocator.getAligned context.pointer + BitVec.ofNat 64 size }, ?_, stop, rfl⟩
  rw [BufferAllocator.allocatorMalloc, if_neg, if_neg]
  · rw [BitVec.lt_def, stop, aligned]
    omega
  · rw [BitVec.le_def, stop, aligned]
    omega

/-- Allocations go well if there is room for all of them. -/
theorem exists_allocateAll {sizes : List ℕ} {context : BufferAllocator.Context}
    (room : aligned context.pointer.toNat + (sizes.map aligned).sum < context.endPointer.toNat) :
    ∃ after, allocateAll sizes context = .ok after := by
  induction sizes generalizing context with
  | nil => exact ⟨context, rfl⟩
  | cons size sizes ih =>
      rw [List.map_cons, List.sum_cons, aligned, aligned] at room
      rcases @allocatorMalloc_of_room size context (by rw [aligned]; omega) with
        ⟨pointer, middle, allocates, stop, same⟩
      rcases @ih middle (by
        rw [stop, same, aligned, aligned]
        omega) with ⟨after, rest⟩
      exact ⟨after, allocateAll_cons.mpr ⟨pointer, middle, allocates, rest⟩⟩

/-- What is left of a kilobyte on the stack behind the allocator itself -/
theorem exists_newWithIdentity {buffer : BitVec 64} (inside : buffer.toNat + 1024 < 2 ^ 64) :
    ∃ alloc, BufferAllocator.newWithIdentity buffer 1024 = .ok (some alloc) ∧
      alloc.pointer.toNat ≤ buffer.toNat + 7 + 144 ∧
      alloc.endPointer.toNat = buffer.toNat + 1024 := by
  have start : (BufferAllocator.getAligned buffer).toNat = aligned buffer.toNat := by
    rw [BufferAllocator.toNat_getAligned, aligned]
    omega
  have above : aligned buffer.toNat ≤ buffer.toNat + 7 ∧ buffer.toNat ≤ aligned buffer.toNat := by
    rw [aligned]
    omega
  have stop : (buffer + 1024).toNat = buffer.toNat + 1024 := by
    rw [BitVec.toNat_add]
    exact Nat.mod_eq_of_lt inside
  have behind : (BufferAllocator.getAligned buffer +
      BitVec.ofNat 64 BufferAllocator.contextSize).toNat = aligned buffer.toNat + 72 := by
    rw [BitVec.toNat_add, start]
    exact Nat.mod_eq_of_lt (by change aligned buffer.toNat + 72 < _; omega)
  have multiple : aligned (aligned buffer.toNat + 72) = aligned buffer.toNat + 72 := by
    rw [aligned, aligned]
    omega
  rcases @allocatorMalloc_of_room BufferAllocator.allocatorSize
    { basePointer := BufferAllocator.getAligned buffer
      pointer := BufferAllocator.getAligned buffer + BitVec.ofNat 64 BufferAllocator.contextSize
      endPointer := buffer + 1024
      onFree := 0 } (by
        dsimp only
        rw [behind, stop, multiple]
        change _ + 72 < _
        omega) with ⟨pointer, after, allocates, top, same⟩
  dsimp only at top
  rw [behind, multiple] at top
  refine ⟨{ after with basePointer := after.pointer }, ?_, ?_, ?_⟩
  · rw [BufferAllocator.newWithIdentity, if_neg, if_neg, allocates]
    · rfl
    · rw [BitVec.lt_def, behind, BitVec.add_comm, stop]
      omega
    · rw [BitVec.lt_def, stop, start]
      omega
  · change after.pointer.toNat ≤ _
    rw [top]
    change aligned buffer.toNat + 72 + 72 ≤ _
    omega
  · change after.endPointer.toNat = _
    rw [same, stop]

/-- So much fits in a kilobyte. -/
theorem exists_alloc {buffer : BitVec 64} (inside : buffer.toNat + 1024 < 2 ^ 64)
    {sizes : List ℕ} (small : (sizes.map aligned).sum ≤ 864) :
    ∃ alloc after, BufferAllocator.newWithIdentity buffer 1024 = .ok (some alloc) ∧
      allocateAll sizes alloc = .ok after := by
  rcases exists_newWithIdentity inside with ⟨alloc, created, start, stop⟩
  rcases @exists_allocateAll sizes alloc (by
    rw [stop, aligned]
    omega) with ⟨after, allocated⟩
  exact ⟨alloc, after, created, allocated⟩

/-! ## The question -/

/-- What `requestAddresses` sends for a connection -/
def addressRequest (conn : Connection) : Dict :=
  .cons Q (.string GET_ADDRESSES)
    (.cons TXID (.string (Bytes.store32 (conn.numberField.signExtend 32))) .nil)

/-- What `incomingControlMessage` answers, with the buffers on the stack -/
def answerControlMessage (buffer : BitVec 64) (stack : List.Vector (BitVec 8) 512) (erange : Bool)
    (message : Message) (conn : ℕ) (context : Context) : Option (Option ControlMessage) :=
  (controlContent message).map fun content =>
    content.bind fun message =>
      let reader := message.memory.read message.bytes (message.length + 1)
      match parseDictionary erange reader with
      | .error _ => none
      | .ok (d, _) => (answer buffer stack (context.connections conn) d).map Prod.snd

/-- What `incomingFromNode` sends back to the node -/
def answerFromNode (buffer : BitVec 64) (stack : List.Vector (BitVec 8) 512) (erange : Bool)
    (message : Message) (context : Context) : Option (Option ControlMessage) :=
  if message.length < PacketInfoHeader_SIZE then none
  else
    match connectionByPubKey (senderKey message) context with
    | none => some none
    | some conn =>
        (message.shift (-PacketInfoHeader_SIZE)).bind fun message =>
          if message.length > 40 ∧ getIpVersion message.memory message.bytes = 6 ∧
              message.memory.load (message.bytes + 8) 256 = 0 then
            answerControlMessage buffer stack erange message conn context
          else some none

variable {stack : List.Vector (BitVec 8) 512} {dict : Dict} {buffer : BitVec 64} {erange : Bool}
  {key : BitVec 256} {message : Message} {conn : ℕ} {context : Context}

/-- What becomes of a control message that arrives -/
theorem fromNode_of_arrives (fits : (serializeDictionary dict).length ≤ 512)
    (plain : dict.hasExtreme = false)
    (arrives : Arrives key (sendControlMessage stack dict).toBytes message)
    (known : connectionByPubKey key context = some conn) :
    connectionsFromNode erange message context =
        some (incomingDictionary (dict.mirrorOnto .nil) conn context) ∧
      ∀ stack, answerFromNode buffer stack erange message context =
        some ((answer buffer stack (context.connections conn) (dict.mirrorOnto .nil)).map
          Prod.snd) := by
  rcases controlContent_of_arrives fits arrives with
    ⟨packet, content, behind, shifts, control, aligned, text⟩
  have parsed := @RepliesWhole.parse_serialized erange behind dict (by omega) plain
  have long : ¬ message.length < PacketInfoHeader_SIZE := by
    rw [arrives.length]
    exact not_lt.mpr (Nat.le_add_right _ _)
  rw [← arrives.sender] at known
  constructor
  · simp only [connectionsFromNode, if_neg long, known, shifts, Option.bind_some, if_pos control,
      incomingControlMessage, aligned, Option.map_some, text, parsed]
  · intro stack
    simp only [answerFromNode, if_neg long, known, shifts, Option.bind_some, if_pos control,
      answerControlMessage, aligned, Option.map_some, text, parsed]

/-! ## The answer -/

/-- A connection with the addresses that another one has to give away -/
def Connection.lease (connection server : Connection) : Connection :=
  { connection with
    connectionIp6 :=
      if server.connectionIp6 = 0 then connection.connectionIp6 else server.connectionIp6
    connectionIp4 :=
      if server.connectionIp4 = 0 then connection.connectionIp4 else server.connectionIp4 }

theorem fixed_lease (connection server : Connection) :
    (connection.lease server).fixed = connection.fixed := rfl

theorem wordOf_addressBytes (count : ℕ) (address : BitVec (8 * count)) :
    wordOf (8 * count) (addressBytes count address) = address := by
  apply BitVec.eq_of_getLsbD_eq
  intro bit inside
  have byte : (0 + ((bit : ℕ) : ℤ) / 8).toNat = bit / 8 := by omega
  have place : bit / 8 < count := by omega
  rw [wordOf, Memory.getLsbD_load _ _ inside, byte, addressBytes, List.getD_eq_getElem?_getD,
    List.getElem?_map, List.getElem?_range place, Option.map_some, Option.getD_some,
    BitVec.getLsbD_extractLsb', Nat.div_add_mod, decide_eq_true (Nat.mod_lt _ (by norm_num)),
    Bool.true_and]

/-- The addresses of an offer that was read back -/
theorem getString_addresses (server : Connection) :
    ((addresses server).mirrorOnto .nil).getString IP4 =
        (if server.connectionIp4 = 0 then none
          else some (addressBytes 4 server.connectionIp4)) ∧
      ((addresses server).mirrorOnto .nil).getString IP6 =
        if server.connectionIp6 = 0 then none
          else some (addressBytes 16 server.connectionIp6) := by
  rw [addresses]
  by_cases noSix : server.connectionIp6 = 0 <;> by_cases noFour : server.connectionIp4 = 0
  · rw [if_neg (not_not.mpr noSix), if_neg (not_not.mpr noFour), if_pos noSix, if_pos noFour]
    exact ⟨rfl, rfl⟩
  · rw [if_neg (not_not.mpr noSix), if_pos noFour, if_pos noSix, if_neg noFour]
    exact ⟨rfl, rfl⟩
  · rw [if_pos noSix, if_neg (not_not.mpr noFour), if_neg noSix, if_pos noFour]
    exact ⟨rfl, rfl⟩
  · rw [if_pos noSix, if_pos noFour, if_neg noSix, if_neg noFour]
    exact ⟨rfl, rfl⟩

theorem withAddresses_addresses (server connection : Connection) :
    withAddresses ((addresses server).mirrorOnto .nil) connection = connection.lease server := by
  have six := wordOf_addressBytes 16 server.connectionIp6
  have four := wordOf_addressBytes 4 server.connectionIp4
  rcases getString_addresses server with ⟨ip4, ip6⟩
  rw [withAddresses, ip4, ip6, Connection.lease]
  by_cases noSix : server.connectionIp6 = 0 <;> by_cases noFour : server.connectionIp4 = 0
  · simp only [if_pos noSix, if_pos noFour]
  · simp only [if_pos noSix, if_neg noFour, length_addressBytes, if_true]
    rw [four]
  · simp only [if_neg noSix, if_pos noFour, length_addressBytes, if_true]
    rw [six]
  · simp only [if_neg noSix, if_neg noFour, length_addressBytes, if_true]
    rw [six, four]

/-- A request as it is read back -/
def requested (conn : Connection) : Dict :=
  (addressRequest conn).mirrorOnto .nil

/-- What a connection has to give away for a request -/
def addressReply (server conn : Connection) : Dict :=
  .cons ADDRESSES (.dict (addresses server))
    (.cons TXID (.string (Bytes.store32 (conn.numberField.signExtend 32))) .nil)

/-- A connection from which addresses are given away -/
def Connection.Gives (server : Connection) : Prop :=
  server.isOutgoing = false ∧ ¬(server.connectionIp6 = 0 ∧ server.connectionIp4 = 0)

theorem addressOffer_requested {server : Connection} (gives : server.Gives) (conn : Connection) :
    addressOffer (requested conn) server = some (addressReply server conn) := by
  rw [addressOffer, if_neg (by
    rw [not_or]
    exact ⟨Bool.not_eq_true _ ▸ gives.1, gives.2⟩)]
  rfl

/-- There is memory for the answer to a request. -/
theorem answer_requested (inside : buffer.toNat + 1024 < 2 ^ 64)
    (stack : List.Vector (BitVec 8) 512) {server : Connection} (gives : server.Gives)
    (conn : Connection) :
    answer buffer stack server (requested conn) =
      some (addressReply server conn, sendControlMessage stack (addressReply server conn)) := by
  have entries : ((entrySizes (requested conn)).map aligned).sum = 192 := by
    simp [requested, addressRequest, Dict.mirrorOnto, Object.mirror, entrySizes, objectSizes,
      stringSizes, aligned, Bytes.store32]
  have found : (requested conn).getString TXID =
      some (Bytes.store32 (conn.numberField.signExtend 32)) := rfl
  have offer : ((offerSizes (requested conn) server).map aligned).sum ≤ 240 := by
    rw [offerSizes, found]
    split_ifs <;> decide
  rcases @exists_alloc buffer inside
    (readerSizes ++ (entrySizes (requested conn) ++ offerSizes (requested conn) server)) (by
      rw [List.map_append, List.sum_append, List.map_append, List.sum_append, entries]
      change 56 + _ ≤ _
      omega) with ⟨alloc, after, created, allocated⟩
  rcases allocateAll_append.mp allocated with ⟨second, readers, rest⟩
  rcases allocateAll_append.mp rest with ⟨third, reads, offers⟩
  have asks : ¬(((requested conn).getDict ADDRESSES).isSome ∨
      (requested conn).getString Q ≠ some GET_ADDRESSES) := by
    rw [not_or, not_not]
    exact ⟨Bool.false_ne_true, rfl⟩
  simp only [answer, created, readers, reads, offers, Except.toOption, Option.join_some,
    Option.bind_eq_bind, Option.bind_some, if_neg asks, addressOffer_requested gives]

theorem length_addressRequest (conn : Connection) :
    (serializeDictionary (addressRequest conn)).length ≤ 512 := by
  have number : (serializeString (Bytes.store32 (conn.numberField.signExtend 32))).length = 1 + 1 + 4 :=
    length_serializeString rfl (by decide +kernel)
  have query : (serializeString Q).length = 3 := by decide +kernel
  have asked : (serializeString GET_ADDRESSES).length = 24 := by decide +kernel
  have txid : (serializeString TXID).length = 6 := by decide +kernel
  simp only [addressRequest, serializeDictionary, serializeEntries, serializeGeneric,
    List.length_append, List.length_cons, List.length_nil, number, query, asked, txid]
  norm_num

theorem length_addressReply {server : Connection} (gives : server.Gives) (conn : Connection) :
    (serializeDictionary (addressReply server conn)).length ≤ 512 := by
  rcases (offer_cases (addressOffer_requested gives conn)).2 with fits | ⟨txid, found, length⟩
  · exact fits
  · have same : txid = Bytes.store32 (conn.numberField.signExtend 32) := (Option.some.inj found).symm
    have number : (serializeString txid).length = 1 + 1 + 4 :=
      length_serializeString (by rw [same]; rfl) (by decide +kernel)
    rw [length, number, offerLength]
    split_ifs <;> norm_num

theorem hasExtreme_addresses (server : Connection) : (addresses server).hasExtreme = false := by
  rw [addresses]
  split_ifs <;> rfl

/-- The connection that asked is given the addresses, if its number is not negative. -/
theorem incomingDictionary_addressReply (numbered : context.Numbered) {first : ℕ}
    (known : first < context.count) (inside : conn < context.count)
    (outgoing : (context.connections first).isOutgoing = true)
    (same : (context.connections first).nodeKey = (context.connections conn).nodeKey)
    (named : 0 ≤ (context.connections conn).numberField.toInt) (server : Connection) :
    incomingDictionary ((addressReply server (context.connections conn)).mirrorOnto .nil) first
      context = { context with
        connections := Function.update context.connections conn
          ((context.connections conn).lease server) } := by
  have text : ((addressReply server (context.connections conn)).mirrorOnto .nil).getString TXID =
      some (Bytes.store32 ((context.connections conn).numberField.signExtend 32)) := rfl
  have offered : ((addressReply server (context.connections conn)).mirrorOnto .nil).getDict
      ADDRESSES = some ((addresses server).mirrorOnto .nil) := rfl
  have below := numbered.toInt_lt inside
  have number : (Bytes.load32 (Bytes.store32
      ((context.connections conn).numberField.signExtend 32))).toInt =
        (context.connections conn).numberField.toInt := by
    rw [load32_store32, BitVec.toInt_signExtend_of_le (by decide)]
  have comes : target ((addressReply server (context.connections conn)).mirrorOnto .nil) first
      context = some conn := by
    unfold target
    rw [if_neg (by rw [outgoing]; decide), text]
    dsimp only
    rw [if_neg (by simp [Bytes.store32]), number, if_neg (by omega)]
    split_ifs with other
    · rw [retargetLoop_of_number (fun i _ below equal => numbered.field_inj (by omega) inside
        equal) same, if_pos (by omega)]
    · exact congrArg some (numbered.field_inj known inside (not_not.mp other).symm)
  simp only [incomingDictionary, offered, incomingAddresses, comes, withAddresses_addresses]

theorem incomingDictionary_requested (conn : Connection) (first : ℕ) :
    incomingDictionary (requested conn) first context = context := by
  have none : (requested conn).getDict ADDRESSES = none := rfl
  rw [incomingDictionary, none]

/-- What `incomingControlMessage` allocates for an offer; the last two are a socket address and its
text of so many bytes for each address that is taken. -/
def acceptSizes (d : Dict) (four six : ℕ) : List ℕ :=
  let addresses := (d.getDict ADDRESSES).getD .nil
  readerSizes ++ (entrySizes d ++
    ((if (addresses.getString IP4).map List.length = some 4 then [24, four] else []) ++
      if (addresses.getString IP6).map List.length = some 16 then [40, six] else []))

theorem sum_entrySizes_addresses (server : Connection) :
    ((entrySizes ((addresses server).mirrorOnto .nil)).map aligned).sum ≤ 192 := by
  rw [addresses]
  by_cases noSix : server.connectionIp6 = 0 <;> by_cases noFour : server.connectionIp4 = 0
  · rw [if_neg (not_not.mpr noSix), if_neg (not_not.mpr noFour)]
    exact Nat.zero_le _
  · rw [if_neg (not_not.mpr noSix), if_pos noFour]
    change ((entrySizes (.cons IP4 (.string _) .nil)).map aligned).sum ≤ _
    simp [entrySizes, objectSizes, stringSizes, aligned, length_addressBytes]
  · rw [if_pos noSix, if_neg (not_not.mpr noFour)]
    change ((entrySizes (.cons IP6 (.string _) .nil)).map aligned).sum ≤ _
    simp [entrySizes, objectSizes, stringSizes, aligned, length_addressBytes]
  · rw [if_pos noSix, if_pos noFour]
    change ((entrySizes (.cons IP6 (.string _) (.cons IP4 (.string _) .nil))).map aligned).sum ≤ _
    simp [entrySizes, objectSizes, stringSizes, aligned, length_addressBytes]

/-- The memory of the node that asked lasts for the answer. -/
theorem exists_alloc_of_addressReply (inside : buffer.toNat + 1024 < 2 ^ 64)
    (server conn : Connection) {four six : ℕ} (shortFour : four ≤ 64) (shortSix : six ≤ 64) :
    ∃ alloc after, BufferAllocator.newWithIdentity buffer 1024 = .ok (some alloc) ∧
      allocateAll (acceptSizes ((addressReply server conn).mirrorOnto .nil) four six) alloc =
        .ok after := by
  apply exists_alloc inside
  have entries : ((entrySizes ((addressReply server conn).mirrorOnto .nil)).map aligned).sum ≤
      168 + 192 := by
    have inner := sum_entrySizes_addresses server
    change ((entrySizes (.cons TXID (.string _) (.cons ADDRESSES
      (.dict ((addresses server).mirrorOnto .nil)) .nil))).map aligned).sum ≤ _
    have key : aligned (ADDRESSES.length + 1) = 16 := by decide
    have txid : aligned (TXID.length + 1) = 8 := by decide
    have number : aligned ((Bytes.store32 (conn.numberField.signExtend 32)).length + 1) = 8 :=
      congrArg aligned (show (Bytes.store32 _).length + 1 = 5 from rfl)
    have object : aligned 16 = 16 ∧ aligned 8 = 8 ∧ aligned 24 = 24 := by decide
    simp only [entrySizes, objectSizes, stringSizes, List.nil_append, List.map_append,
      List.sum_append, List.map_cons, List.map_nil, List.sum_cons, List.sum_nil, key, txid, number,
      object]
    omega
  have text (size length : ℕ) (taken : Prop) [Decidable taken] (short : length ≤ 64) :
      ((if taken then [size, length] else []).map aligned).sum ≤ aligned size + 64 := by
    split_ifs
    · simp only [List.map_cons, List.map_nil, List.sum_cons, List.sum_nil, aligned]
      omega
    · exact Nat.zero_le _
  simp only [acceptSizes, List.map_append, List.sum_append]
  refine le_trans (Nat.add_le_add le_rfl (Nat.add_le_add entries
    (Nat.add_le_add (text 24 four _ shortFour) (text 40 six _ shortSix)))) ?_
  decide

/-! ## Leases -/

/-- The place in a packet has the address of a connection in it. -/
def HasAddressAt (packet : Message) (place : ℤ) (connection : Connection) : Prop :=
  if isIp6 packet then packet.memory.load place 128 = connection.connectionIp6
  else packet.memory.load place 32 = connection.connectionIp4

/-- Where the destination address of the packet lies -/
def destination (packet : Message) : ℤ :=
  sourceAndDest packet + if isIp6 packet then 16 else 4

theorem hasAddressOf_iff (packet : Message) (connection : Connection) :
    HasAddressOf packet connection ↔ HasAddressAt packet
      (if connection.isOutgoing then destination packet else sourceAndDest packet)
      connection := by
  rw [HasAddressOf, HasAddressAt, addressMatches, destination]
  by_cases six : isIp6 packet <;> by_cases outgoing : connection.isOutgoing <;> simp [six, outgoing]

/-- The addresses of a packet that is tunneled are not zero. -/
theorem TunnelPacket.ne_zero {packet : Message} {place : ℤ} {connection : Connection}
    (tunneled : TunnelPacket packet)
    (has : HasAddressAt packet place connection)
    (address : place = sourceAndDest packet ∨ place = destination packet) :
    if isIp6 packet then connection.connectionIp6 ≠ 0 else connection.connectionIp4 ≠ 0 := by
  rw [TunnelPacket] at tunneled
  rw [HasAddressAt] at has
  rw [destination] at address
  split_ifs at tunneled has address ⊢
  · rw [← has]
    rcases address with rfl | rfl
    · exact tunneled.2.1
    · exact tunneled.2.2
  · rw [← has]
    rcases address with rfl | rfl
    · exact tunneled.2.2.1
    · exact tunneled.2.2.2

/-- A lease has the addresses that were given. -/
theorem hasAddressAt_lease {packet : Message} {place : ℤ} {server : Connection}
    (issued : if isIp6 packet then server.connectionIp6 ≠ 0 else server.connectionIp4 ≠ 0)
    (has : HasAddressAt packet place server) (connection : Connection) :
    HasAddressAt packet place (connection.lease server) := by
  rw [HasAddressAt, Connection.lease]
  rw [HasAddressAt] at has
  by_cases six : isIp6 packet
  · rw [if_pos six] at issued has ⊢
    dsimp only
    rw [if_neg issued]
    exact has
  · rw [if_neg six] at issued has ⊢
    dsimp only
    rw [if_neg issued]
    exact has

/-- A connection of one tunnel that asks for addresses, and the one of another that has them -/
structure Asks (clientKey : BitVec 256) (client server : Context) (conn authorized : ℕ) :
    Prop where
  numbered : client.Numbered
  inside : conn < client.count
  asks : (client.connections conn).isOutgoing = true
  /-- No offer can name a connection whose number is negative in 31 bits. -/
  named : 0 ≤ (client.connections conn).numberField.toInt
  /-- Offers are taken from the node that is asked. -/
  outgoing : ∃ first, connectionByPubKey (client.connections conn).nodeKey client = some first ∧
    (client.connections first).isOutgoing = true
  known : connectionByPubKey clientKey server = some authorized
  gives : (server.connections authorized).Gives

/-- What the exchange leads to: only the connection that asked is changed, it is not polled any
more, and packets with its addresses pass at both ends. -/
structure Leased (clientKey : BitVec 256) (client leased server : Context) (conn authorized : ℕ) :
    Prop where
  changed : leased = { client with
    connections := Function.update client.connections conn
      ((client.connections conn).lease (server.connections authorized)) }
  assigned : ¬(leased.connections conn).Unassigned
  up : ∀ handlers packet, handlers.tunInterface ≠ none → TunnelPacket packet →
    senderKey packet = clientKey →
    HasAddressAt packet (sourceAndDest packet) (server.connections authorized) →
      Delivers (incomingFromNode handlers packet server)
  down : ∀ handlers packet, handlers.tunInterface ≠ none → TunnelPacket packet →
    senderKey packet = (client.connections conn).nodeKey →
    HasAddressAt packet (destination packet) (server.connections authorized) →
      Delivers (incomingFromNode handlers packet leased)

variable {clientKey : BitVec 256} {client server leased : Context} {authorized : ℕ}

/-- The first connection with a key is not behind another one with it. -/
theorem le_of_connectionByPubKey {first : ℕ}
    (known : connectionByPubKey (context.connections conn).nodeKey context = some first) :
    first ≤ conn := by
  unfold connectionByPubKey at known
  rw [List.find?_range_eq_some] at known
  by_contra behind
  have other := known.2.2 conn (not_le.mp behind)
  simp at other

theorem leased_of_changed (asks : Asks clientKey client server conn authorized)
    (changed : leased = { client with
      connections := Function.update client.connections conn
        ((client.connections conn).lease (server.connections authorized)) }) :
    Leased clientKey client leased server conn authorized := by
  have new : leased.connections conn =
      (client.connections conn).lease (server.connections authorized) := by
    rw [changed]
    exact Function.update_self ..
  have same : SameConnections client leased := by
    rw [changed]
    refine ⟨rfl, fun i => ?_⟩
    by_cases here : i = conn
    · rw [here]
      exact (congrArg Connection.fixed (Function.update_self _ _ _)).trans
        (fixed_lease _ (server.connections authorized))
    · exact congrArg Connection.fixed (Function.update_of_ne here ..)
  refine ⟨changed, ?_, ?_, ?_⟩
  · rw [new]
    rintro ⟨-, noSix, noFour⟩
    simp only [Connection.lease] at noSix noFour
    apply asks.gives.2
    split_ifs at noSix noFour with six four
    · exact ⟨six, four⟩
    · exact absurd noFour ‹_›
    · exact absurd noSix six
    · exact absurd noSix six
  · intro handlers packet registered tunneled sender has
    rw [← sender] at asks
    rw [delivers_known_iff asks.known]
    refine ⟨registered, tunneled, authorized, le_rfl,
      (connectionByPubKey_eq_some asks.known).1.le, ?_⟩
    rw [hasAddressOf_iff, asks.gives.1]
    exact has
  · intro handlers packet registered tunneled sender has
    rcases asks.outgoing with ⟨first, known, -⟩
    have there := known
    rw [← same.connectionByPubKey_eq, ← sender] at there
    rw [delivers_known_iff there]
    refine ⟨registered, tunneled, conn, le_of_connectionByPubKey known, ?_, ?_⟩
    · rw [same.count_eq]
      exact asks.inside.le
    · have issued := tunneled.ne_zero has (.inr rfl)
      have outgoing : (leased.connections conn).isOutgoing = true := by
        rw [same.isOutgoing_eq]
        exact asks.asks
      rw [hasAddressOf_iff, outgoing, if_pos rfl, new]
      exact hasAddressAt_lease issued has _

/-- A connection that asks for addresses is given those that the other node has for it. -/
theorem leased_of_exchange (asks : Asks clientKey client server conn authorized)
    (inside : buffer.toNat + 1024 < 2 ^ 64) {requestStack replyStack : List.Vector (BitVec 8) 512}
    {request : Message}
    (arrives : Arrives clientKey (sendControlMessage requestStack
      (addressRequest (client.connections conn))).toBytes request) :
    connectionsFromNode erange request server = some server ∧ ∃ msg,
      answerFromNode buffer replyStack erange request server =
        some (some (sendControlMessage replyStack msg)) ∧
      (∀ four six, four ≤ 64 → six ≤ 64 → ∃ alloc after,
        BufferAllocator.newWithIdentity buffer 1024 = .ok (some alloc) ∧
          allocateAll (acceptSizes (msg.mirrorOnto .nil) four six) alloc = .ok after) ∧
      ∀ erange reply, Arrives (client.connections conn).nodeKey
          (sendControlMessage replyStack msg).toBytes reply →
        ∃ leased, connectionsFromNode erange reply client = some leased ∧
          Leased clientKey client leased server conn authorized := by
  have asked := @fromNode_of_arrives requestStack _ buffer erange clientKey request authorized
    server (length_addressRequest (client.connections conn)) rfl arrives asks.known
  refine ⟨asked.1.trans (congrArg some (incomingDictionary_requested _ _)),
    addressReply (server.connections authorized) (client.connections conn), ?_,
    fun four six => exists_alloc_of_addressReply inside _ _, ?_⟩
  · refine (asked.2 replyStack).trans ?_
    exact congrArg (fun answer => some (answer.map Prod.snd))
      (answer_requested inside replyStack asks.gives (client.connections conn))
  · intro erange reply answers
    rcases asks.outgoing with ⟨first, known, outgoing⟩
    rcases connectionByPubKey_eq_some known with ⟨bound, same⟩
    have plain : (addressReply (server.connections authorized)
        (client.connections conn)).hasExtreme = false := by
      simp [addressReply, Dict.hasExtreme, Object.hasExtreme, hasExtreme_addresses]
    have taken := (@fromNode_of_arrives replyStack _ buffer erange _ reply first client
      (length_addressReply asks.gives (client.connections conn)) plain answers known).1
    rw [incomingDictionary_addressReply asks.numbered bound asks.inside outgoing same
      asks.named] at taken
    exact ⟨_, taken, leased_of_changed asks rfl⟩

/-- A packet from a node, with nothing around it -/
def delivery (key : BitVec 256) (bytes : BString) : Message where
  memory := (Memory.write (fun _ => 0) PacketInfoHeader_SIZE bytes).store 16 key
  length := PacketInfoHeader_SIZE + bytes.length
  padding := 0
  bytes := 0

theorem arrives_delivery (key : BitVec 256) (bytes : BString) :
    Arrives key bytes (delivery key bytes) where
  length := rfl
  sender := Memory.load_store _ _ _ (by norm_num)
  packet := by
    refine Eq.trans (Memory.read_congr fun place lower upper => ?_)
      (Memory.read_write (fun _ => 0) PacketInfoHeader_SIZE bytes)
    exact Memory.store_outside _ (.inr (by
      change 0 + 48 ≤ place at lower
      omega))

/-- Nothing has been written to the memory of a list. -/
def emptyList : Context :=
  new (fun _ => ⟨0, 0, 0, 0, false, 0⟩) fun key => key.setWidth 128

theorem leased_of_first_exchange :
    ∃ reply leased, connectionsFromNode false reply (runAll [.connect 2] emptyList) = some leased ∧
      Leased 1 (runAll [.connect 2] emptyList) leased
        (runAll [.allow 1 (some 0x200) (some 5)] emptyList) 0 0 := by
  have asks : Asks 1 (runAll [.connect 2] emptyList)
      (runAll [.allow 1 (some 0x200) (some 5)] emptyList) 0 0 := {
    numbered := numbered_runAll _ _ (by decide)
    inside := by decide
    asks := rfl
    named := by decide
    outgoing := ⟨0, by decide, rfl⟩
    known := rfl
    gives := ⟨rfl, by decide⟩ }
  rcases @leased_of_exchange 4096 false 0 1 _ _ 0 asks (by decide) (List.Vector.replicate 512 0)
    (List.Vector.replicate 512 0) _ (arrives_delivery _ _) with
    ⟨-, msg, -, -, taken⟩
  exact ⟨_, taken false _ (arrives_delivery _ _)⟩

end Cjdns.IpTunnel
