import Cjdns.Library.Transition
import Cjdns.Net.SessionManager
import Cjdns.Net.SwitchLayer

/-!
# Ducttape

`Ducttape.c` sits between the switch, the sessions, the DHT and the TUN device. What
it knows about the packet at hand is in the fields of one structure, which all of
them share.

A function calls the switch, the user's interface, the DHT or the tunnel last, if at
all. These may call Ducttape again before they return: what is left to do then is
kept on a stack of frames, and a packet that comes in between finds the fields as
they are at that moment. Control packets touch none of them and are left out, as
are packets without room for a handle and a nonce.

A function has no result where an assertion fails or where a pointer is null.
-/

namespace Cjdns

open CryptoAuth (Packet)

namespace Ducttape

/-! ## What is around it -/

/-- `struct Address` -/
structure Address where
  ip6 : List (BitVec 8)
  key : Key
  path : BitVec 64

/-- `struct Node` -/
structure Node where
  address : Address
  version : BitVec 32

/-- The table of nodes, with what `RouterModule` says about it -/
structure Router where
  /-- `RouterModule_lookup` -/
  lookup : List (BitVec 8) → Option ℕ
  /-- `RouterModule_getNode` -/
  getNode : BitVec 64 → Option ℕ
  nodes : ℕ → Node

/-- `struct Headers_SwitchHeader` -/
structure SwitchHeader where
  label_be : BitVec 64
  lowBits_be : BitVec 32

/-- What stays the same. -/
structure Setting where
  cryptoAuth : CryptoAuth.Context
  /-- `AddressCalc_addressForPublicKey` -/
  addressForPublicKey : Key → List (BitVec 8)
  /-- A packet of the inner layer, read from the content of an IPv6 packet -/
  readPacket : List (BitVec 8) → Packet
  writePacket : Packet → List (BitVec 8)
  /-- Whether `userIf` is set -/
  hasUserIf : Bool

/-- The field `myAddr.ip6` -/
def Setting.myAddr (setting : Setting) : List (BitVec 8) :=
  setting.addressForPublicKey setting.cryptoAuth.publicKey

/-- The clock in a call, and what is left to chance -/
structure Moment where
  nowSecs : BitVec 64
  nowMilliseconds : BitVec 64
  chance : ℕ → CryptoAuth.Chance
  /-- What lies in front of a buffered message that has no header there -/
  stale : IP6Header
  /-- What a buffered message is once it was encrypted in place -/
  leftover : List (BitVec 8)

/-- The moment after one more call of a session -/
def Moment.later (moment : Moment) : Moment :=
  { moment with chance := fun index => moment.chance (index + 1) }

/-! ## State -/

/-- `enum Ducttape_SessionLayer` -/
inductive SessionLayer where
  | INVALID
  | INNER
  | OUTER
deriving DecidableEq

/-- What happened in a call, for statements about runs -/
inductive Deed where
  /-- `incomingFromSwitch` got a packet with this handle in front of it. -/
  | arrived (handle_be : BitVec 32) (packet : Packet)
  | session (handle : ℕ) (ip6 : List (BitVec 8)) (deed : CryptoAuth.Deed)
  /-- A session passed on a message. -/
  | opened (handle : ℕ) (herPubKey : Key) (message : List (BitVec 8))
  /-- The handle and the version of the other node were put in a session. -/
  | bound (handle : ℕ) (sendHandle_be version : BitVec 32)
  /-- `outgoingFromMe` was called with this header. -/
  | fromMe (header : IP6Header)
  /-- `core` has chosen where a packet goes. -/
  | routed (destinationAddr : List (BitVec 8)) (nextHop : Option ℕ)
  | toSwitch (switchHeader : SwitchHeader) (handle_be : BitVec 32) (packet : Packet)
  /-- `incomingForMe` writes to the TUN device. -/
  | toUser (header : IP6Header) (content : List (BitVec 8))
  | toDht (address : Address) (content : List (BitVec 8))
  /-- `sendMessage` of `nodeInterface` of the tunnel -/
  | toTunnel (nodeIp6Addr : List (BitVec 8)) (nodeKey : Key) (message : List (BitVec 8))
  /-- `sendMessage` of `tunInterface` of the tunnel -/
  | fromTunToTunnel (message : List (BitVec 8))
  /-- A packet from the TUN device goes back to it. -/
  | echoed (message : List (BitVec 8))
  /-- `RouterModule_beginSearch` -/
  | searched (target : List (BitVec 8))

/-- The deed is a call of another component. -/
def Deed.isCall : Deed → Bool
  | .arrived .. | .session .. | .opened .. | .bound .. | .fromMe .. | .routed .. => false
  | .toSwitch .. | .toUser .. | .toDht .. | .toTunnel .. | .fromTunToTunnel .. | .echoed ..
  | .searched .. => true

/-- What is left to do when a call returns -/
structure Frame where
  /-- The session in whose `decryptHandshake` a buffered message is sent -/
  released : Option ℕ := none
  /-- `incomingFromSwitch` has called the session. -/
  traffic : Bool := false

end Ducttape

/-- `struct Ducttape_pvt` -/
structure Ducttape where
  sm : SessionManager
  /-- The random source of CryptoAuth -/
  rand : CryptoAuth.Random
  router : Ducttape.Router
  switchHeader : Option Ducttape.SwitchHeader
  ip6Header : IP6Header
  /-- How many bytes there are behind `ip6Header` -/
  ip6Length : ℕ
  forwardTo : Option ℕ
  session : Option ℕ
  timeOfLastSearch : BitVec 64
  layer : Ducttape.SessionLayer
  initMessage : Bool
  currentSessionSendHandle_be : BitVec 32
  currentSessionVersion : BitVec 32
  frame : Ducttape.Frame
  deeds : List Ducttape.Deed

namespace Ducttape

/-- A deed is added. -/
def log (deed : Deed) (context : Ducttape) : Ducttape :=
  { context with deeds := context.deeds ++ [deed] }

/-- What `session` points to -/
def current (context : Ducttape) : Option Session :=
  context.session.bind fun handle => context.sm.find handle

/-- Assignment to what `session` points to -/
def assign (change : Session → Session) (context : Ducttape) : Ducttape :=
  match context.session with
  | some handle => { context with sm := context.sm.modify handle change }
  | none => context

/-- An assignment changes the sessions only. -/
theorem assign_eq (change : Session → Session) (context : Ducttape) :
    context.assign change = { context with sm := (context.assign change).sm } := by
  rw [assign]
  split <;> rfl

/-! ## Sending -/

/-- `genReverseHandshake` made the packet. -/
def isReverse (packet : Packet) : Bool :=
  packet.handshake.box.isNone && packet.data.isNone

/-- `sendToSwitch`; it is an error to send to a node of version 0. -/
def sendToSwitch (setting : Setting) (moment : Moment) (packet : Packet) (context : Ducttape) :
    Option Ducttape :=
  match context.current, context.switchHeader with
  | some session, some destinationSwitchHeader =>
      if session.version = 0 then none
      else
        let wrapper := CryptoAuth.expire setting.cryptoAuth moment.nowSecs session.wrapper
        -- `CryptoAuth_HANDSHAKE3`
        let handle_be :=
          if 4 ≤ wrapper.nextNonce then session.sendHandle_be else session.receiveHandle_be
        some ((context.assign fun session => { session with wrapper := wrapper }).log
          (.toSwitch destinationSwitchHeader handle_be packet))
  | _, _ => none

theorem sendToSwitch_eq_some {setting : Setting} {moment : Moment} {packet : Packet}
    {context after : Ducttape} (sends : sendToSwitch setting moment packet context = some after) :
    ∃ session switchHeader handle_be, context.current = some session ∧
      after = (context.assign fun other => { other with
        wrapper := CryptoAuth.expire setting.cryptoAuth moment.nowSecs session.wrapper }).log
          (.toSwitch switchHeader handle_be packet) := by
  simp only [sendToSwitch] at sends
  split at sends
  · rename_i session switchHeader current _
    split at sends
    · cases sends
    · exact ⟨session, switchHeader, _, current, (Option.some.inj sends).symm⟩
  · cases sends

/--
`sendMessage` of the current session, up to the call of `outgoingFromCryptoAuth`. The
padding that is copied along with a buffered message has the header in it.
-/
def encrypt (setting : Setting) (moment : Moment) (header : Option IP6Header)
    (message : List (BitVec 8)) (context : Ducttape) : Option (Packet × Ducttape) :=
  context.current.map fun session =>
    let written := CryptoAuth.sendMessage setting.cryptoAuth moment.nowSecs (moment.chance 0) message
      context.rand session.wrapper
    let context := context.assign fun session =>
      { session with
        wrapper := written.wrapper
        bufferedHeader :=
          if isReverse written.packet then header else session.bufferedHeader }
    (written.packet, { context with rand := written.rand })

theorem encrypt_eq_some {setting : Setting} {moment : Moment} {header : Option IP6Header}
    {message : List (BitVec 8)} {packet : Packet} {context after : Ducttape}
    (encrypts : encrypt setting moment header message context = some (packet, after)) :
    ∃ session written, context.current = some session ∧
      written = CryptoAuth.sendMessage setting.cryptoAuth moment.nowSecs (moment.chance 0) message
        context.rand session.wrapper ∧
      after = { context with
        sm := (context.assign fun session => { session with
          wrapper := written.wrapper
          bufferedHeader :=
            if isReverse written.packet then header else session.bufferedHeader }).sm
        rand := written.rand } := by
  simp only [encrypt, Option.map_eq_some_iff, Prod.mk.injEq] at encrypts
  rcases encrypts with ⟨session, current, rfl, rfl⟩
  refine ⟨session, _, current, rfl, ?_⟩
  rw [assign_eq]

/-- Where a `struct Node` is: in the table, or on the stack of the caller -/
inductive NodePointer where
  | stored (index : ℕ)
  | onStack (node : Node)

def NodePointer.node (router : Router) : NodePointer → Node
  | .stored index => router.nodes index
  | .onStack node => node

/-- Assignment to the field `version` -/
def Router.setVersion (version : BitVec 32) (router : Router) : NodePointer → Router
  | .stored index =>
      let node := { router.nodes index with version := version }
      { router with nodes := Function.update router.nodes index node }
  | .onStack _ => router

/-- The larger version -/
def newerVersion (node : Node) (session : Session) : BitVec 32 :=
  if node.version > session.version then node.version else session.version

/-- `sendToRouter`; the packet goes through `outgoingFromCryptoAuth` to `sendToSwitch`. -/
def sendToRouter (setting : Setting) (moment : Moment) (pointer : NodePointer)
    (message : List (BitVec 8)) (context : Ducttape) : Option Ducttape :=
  let node := pointer.node context.router
  let header := context.switchHeader.getD { label_be := 0, lowBits_be := 0 }
  let (sm, handle) := SessionManager.getSession node.address.ip6 (some node.address.key)
    moment.nowSecs context.sm
  (sm.find handle).bind fun session =>
    let version := newerVersion node session
    let context := { context with
      switchHeader := some { header with
        label_be := Endian.hostToBigEndian64 node.address.path }
      sm := sm.modify handle fun session => { session with version := version }
      router := context.router.setVersion version pointer
      session := some handle
      layer := .OUTER }
    (encrypt setting moment none message context).bind fun (packet, context) =>
      sendToSwitch setting moment packet { context with layer := .INVALID }

/-! ## Packets for this node -/

/-- `isRouterTraffic` -/
def isRouterTraffic (message : List (BitVec 8)) (ip6 : IP6Header) : Bool :=
  ip6.nextHeader = 17 && ip6.hopLimit = 0 && UDPHeader_SIZE ≤ message.length &&
    message.take 4 = [0, 0, 0, 0] &&
    (Bytes.word16 message 4).toNat = message.length - UDPHeader_SIZE

/-- `DHTMessage_MAX_SIZE` -/
abbrev DHTMessage_MAX_SIZE : ℕ := 1536

/-- The part of `incomingForMe` that puts the handle in the session -/
def bindInner (message : List (BitVec 8)) (handle : ℕ) (session : Session) (context : Ducttape) :
    Ducttape :=
  let sendHandle_be := Bytes.load32 message ||| HANDLE_FLAG_BIT_be
  let version := if session.version ≠ 0 then session.version else CURRENT_PROTOCOL
  (context.assign fun session => { session with
    sendHandle_be := sendHandle_be, version := version }).log (.bound handle sendHandle_be version)

/-- `incomingForMe`, behind the handle -/
def deliverForMe (setting : Setting) (message : List (BitVec 8)) (ip6 : List (BitVec 8))
    (herPubKey : Key) (context : Ducttape) : Option Ducttape :=
  let header := context.ip6Header
  if ip6 ≠ header.sourceAddr then some context
  else if message.length = 0 then some context
  else if isRouterTraffic message header then
    if Checksum.udpIp6 header message ≠ 0 then some context
    else
      context.switchHeader.map fun switchHeader =>
        context.log (.toDht
          { ip6 := ip6, key := herPubKey
            path := Endian.bigEndianToHost64 switchHeader.label_be }
          ((message.drop UDPHeader_SIZE).take DHTMessage_MAX_SIZE))
  else if !setting.hasUserIf then some context
  else
    -- A crypto header between the IPv6 header and the content has been taken out.
    let sizeDiff := BitVec.ofNat 16 (context.ip6Length - message.length)
    some (context.log (.toUser
      { header with
        hopLimit := if header.hopLimit = 255 then 254 else header.hopLimit
        payloadLength := header.payloadLength - sizeDiff }
      message))

/-- `incomingForMe` -/
def incomingForMe (setting : Setting) (message : List (BitVec 8)) (herPubKey : Key)
    (containsHandle : Bool) (context : Ducttape) : Option Ducttape :=
  context.session.bind fun handle => (context.sm.find handle).bind fun session =>
    if containsHandle && 4 ≤ message.length then
      deliverForMe setting (message.drop 4) session.ip6 herPubKey
        (context.bindInner message handle session)
    else deliverForMe setting message session.ip6 herPubKey context

/-- What `incomingForMe` may do with a packet, once the handle is off -/
theorem deliverForMe_eq_some {setting : Setting} {message ip6 : List (BitVec 8)} {herPubKey : Key}
    {context after : Ducttape}
    (delivers : deliverForMe setting message ip6 herPubKey context = some after) :
    after = context ∨ ip6 = context.ip6Header.sourceAddr ∧
      ((∃ path content, content <:+: message ∧
        after = context.log (.toDht { ip6 := ip6, key := herPubKey, path := path } content)) ∨
      ∃ header : IP6Header, header.sourceAddr = context.ip6Header.sourceAddr ∧
        after = context.log (.toUser header message)) := by
  simp only [deliverForMe] at delivers
  by_cases foreign : ip6 ≠ context.ip6Header.sourceAddr
  · rw [if_pos foreign] at delivers
    exact .inl (Option.some.inj delivers).symm
  rw [if_neg foreign] at delivers
  rw [not_not] at foreign
  by_cases empty : message.length = 0
  · rw [if_pos empty] at delivers
    exact .inl (Option.some.inj delivers).symm
  rw [if_neg empty] at delivers
  by_cases traffic : isRouterTraffic message context.ip6Header = true
  · rw [if_pos traffic] at delivers
    split at delivers
    · exact .inl (Option.some.inj delivers).symm
    · rcases Option.map_eq_some_iff.mp delivers with ⟨switchHeader, -, rfl⟩
      refine .inr ⟨foreign, .inl ⟨_, _, ?_, rfl⟩⟩
      exact (List.take_prefix _ _).isInfix.trans (List.drop_suffix _ _).isInfix
  rw [if_neg traffic] at delivers
  split at delivers
  · exact .inl (Option.some.inj delivers).symm
  · refine .inr ⟨foreign, .inr ⟨_, ?_, (Option.some.inj delivers).symm⟩⟩
    rfl

theorem incomingForMe_eq_some {setting : Setting} {message : List (BitVec 8)} {herPubKey : Key}
    {containsHandle : Bool} {context after : Ducttape}
    (delivers : incomingForMe setting message herPubKey containsHandle context = some after) :
    ∃ handle session, context.session = some handle ∧ context.sm.find handle = some session ∧
      (containsHandle = true ∧ 4 ≤ message.length ∧
        deliverForMe setting (message.drop 4) session.ip6 herPubKey
          (context.bindInner message handle session) = some after ∨
      deliverForMe setting message session.ip6 herPubKey context = some after) := by
  simp only [incomingForMe, Option.bind_eq_some_iff] at delivers
  rcases delivers with ⟨handle, current, session, found, delivers⟩
  refine ⟨handle, session, current, found, ?_⟩
  split at delivers
  · rename_i contains
    rw [Bool.and_eq_true, decide_eq_true_eq] at contains
    exact .inl ⟨contains.1, contains.2, delivers⟩
  · exact .inr delivers

/-! ## Callbacks of a session -/

/-- `core`, where it goes on to -/
abbrev Continuation := IP6Header → List (BitVec 8) → Ducttape → Option Ducttape

/-- `outgoingFromMe`, with the header that lies in front of the packet -/
def outgoingFromMe (setting : Setting) (core : Continuation) (header : IP6Header)
    (packet : Packet) (context : Ducttape) : Option Ducttape :=
  let message := setting.writePacket packet
  let payloadLength := BitVec.ofNat 16 message.length
  let context := context.log (.fromMe header)
  if header.destinationAddr = setting.myAddr then
    -- The answer to a packet that asks for a hello goes back under the header of that packet.
    core
      { header with
        destinationAddr := header.sourceAddr
        sourceAddr := setting.myAddr
        payloadLength := payloadLength }
      message context
  else if header.sourceAddr = setting.myAddr then
    core { header with payloadLength := payloadLength } message context
  else none

/-- `outgoingFromCryptoAuth` -/
def outgoingFromCryptoAuth (setting : Setting) (moment : Moment) (core : Continuation)
    (header : IP6Header) (packet : Packet) (context : Ducttape) : Option Ducttape :=
  let layer := context.layer
  let context := { context with layer := .INVALID }
  if layer = .OUTER then sendToSwitch setting moment packet context
  else outgoingFromMe setting core header packet context

/-- `validEncryptedIP6` -/
def validEncryptedIP6 (message : List (BitVec 8)) : Bool :=
  let header := IP6Header.ofBytes message
  IP6Header_SIZE ≤ message.length && validAddress header.sourceAddr &&
    validAddress header.destinationAddr

/-- The beginning of `incomingFromRouter`, where the cached handle goes to the current session -/
def bindOuter (handle : ℕ) (context : Ducttape) : Ducttape :=
  if context.currentSessionVersion > 0 then
    let bound := (context.assign fun session => { session with
      sendHandle_be := context.currentSessionSendHandle_be
      version := context.currentSessionVersion }).log
        (.bound handle context.currentSessionSendHandle_be context.currentSessionVersion)
    { bound with currentSessionVersion := 0 }
  else context

/-- `incomingFromRouter` -/
def incomingFromRouter (core : Continuation) (message : List (BitVec 8)) (context : Ducttape) :
    Option Ducttape :=
  context.session.bind fun handle => (context.sm.find handle).bind fun session =>
    let context := context.bindOuter handle
    if validEncryptedIP6 message then
      core (IP6Header.ofBytes message) (message.drop IP6Header_SIZE) context
    else some (context.log (.toTunnel session.ip6 session.wrapper.herPerminentPubKey message))

/-- `incomingFromCryptoAuth` -/
def incomingFromCryptoAuth (setting : Setting) (core : Continuation) (message : List (BitVec 8))
    (herPubKey : Key) (context : Ducttape) : Option Ducttape :=
  let layer := context.layer
  let context := { context with layer := .INVALID }
  match layer with
  | .OUTER => incomingFromRouter core message context
  | .INNER => incomingForMe setting message herPubKey context.initMessage context
  | .INVALID => none

/-- The call has taken the message that the session had buffered. -/
def released (session : Session) (received : CryptoAuth.Received) : Bool :=
  session.wrapper.hasBufferedMessage && !received.wrapper.hasBufferedMessage

/-- The header in front of a packet that a session sends in response to another one -/
def headerInFront (moment : Moment) (packetHeader : IP6Header) (session : Session)
    (received : CryptoAuth.Received) (sent : Packet) : IP6Header :=
  if released session received then
    -- In front of a data packet, the copy of the header is not where it is looked for.
    if sent.data.isSome then moment.stale else session.bufferedHeader.getD moment.stale
  else packetHeader

/-- The session while a packet that it sends in response to another one is on its way -/
def responding (moment : Moment) (packetHeader : IP6Header) (received : CryptoAuth.Received)
    (sent : Packet) (session : Session) : Session :=
  if released session received then
    -- `hasBufferedMessage` is cleared when the packet is sent.
    { session with
      wrapper := { received.wrapper with
        hasBufferedMessage := true, bufferedMessage := some moment.leftover }
      bufferedHeader := none }
  else
    { session with
      wrapper := received.wrapper
      bufferedHeader := if isReverse sent then some packetHeader else session.bufferedHeader }

/-- What a call of a session's `receiveMessage` did is added. -/
def logReceived (handle : ℕ) (session : Session) (received : CryptoAuth.Received)
    (context : Ducttape) : Ducttape :=
  { context with
    rand := received.rand
    deeds := context.deeds ++ received.deeds.map (Deed.session handle session.ip6) }

/-- The current session has taken a packet and sends another one. -/
def respond (moment : Moment) (handle : ℕ) (session : Session) (received : CryptoAuth.Received)
    (sent : Packet) (context : Ducttape) : Ducttape :=
  let responded := (context.logReceived handle session received).assign
    (responding moment context.ip6Header received sent)
  { responded with frame := { context.frame with
      released := if released session received then some handle else none } }

/-- The current session has taken a packet. -/
def take (handle : ℕ) (session : Session) (received : CryptoAuth.Received) (context : Ducttape) :
    Ducttape :=
  (context.logReceived handle session received).assign fun session =>
    { session with wrapper := received.wrapper }

/-- The current session has taken a packet and passes a message on. -/
def passOn (handle : ℕ) (session : Session) (received : CryptoAuth.Received)
    (message : List (BitVec 8)) (context : Ducttape) : Ducttape :=
  (context.take handle session received).log
    (.opened handle received.wrapper.herPerminentPubKey message)

theorem take_eq (handle : ℕ) (session : Session) (received : CryptoAuth.Received)
    (context : Ducttape) :
    context.take handle session received = { context with
      sm := (context.take handle session received).sm
      rand := received.rand
      deeds := context.deeds ++ received.deeds.map (Deed.session handle session.ip6) } := by
  rw [take, assign_eq]
  rfl

theorem passOn_eq (handle : ℕ) (session : Session) (received : CryptoAuth.Received)
    (message : List (BitVec 8)) (context : Ducttape) :
    context.passOn handle session received message = { context with
      sm := (context.take handle session received).sm
      rand := received.rand
      deeds := context.deeds ++ received.deeds.map (Deed.session handle session.ip6) ++
        [.opened handle received.wrapper.herPerminentPubKey message] } := by
  rw [passOn, take_eq]
  rfl

section

variable (handle : ℕ) (session : Session) (received : CryptoAuth.Received)
  (message : List (BitVec 8)) (context : Ducttape)

@[simp]
theorem passOn_session :
    (context.passOn handle session received message).session = context.session := by
  rw [passOn_eq]

@[simp]
theorem passOn_layer : (context.passOn handle session received message).layer = context.layer := by
  rw [passOn_eq]

@[simp]
theorem passOn_initMessage :
    (context.passOn handle session received message).initMessage = context.initMessage := by
  rw [passOn_eq]

@[simp]
theorem passOn_currentSessionSendHandle_be :
    (context.passOn handle session received message).currentSessionSendHandle_be =
      context.currentSessionSendHandle_be := by
  rw [passOn_eq]

@[simp]
theorem passOn_currentSessionVersion :
    (context.passOn handle session received message).currentSessionVersion =
      context.currentSessionVersion := by
  rw [passOn_eq]

end

/-- `receiveMessage` of the current session -/
def receive (setting : Setting) (moment : Moment) (core : Continuation) (packet : Packet)
    (context : Ducttape) : Option Ducttape :=
  context.session.bind fun handle => (context.sm.find handle).bind fun session =>
    let received := CryptoAuth.receiveMessage setting.cryptoAuth moment.nowSecs (moment.chance 0)
      packet context.rand session.wrapper
    match received.sent, received.outcome with
    | some sent, _ =>
        outgoingFromCryptoAuth setting moment core
          (headerInFront moment context.ip6Header session received sent) sent
          (context.respond moment handle session received sent)
    | none, .passed message =>
        incomingFromCryptoAuth setting core message received.wrapper.herPerminentPubKey
          (context.passOn handle session received message)
    | none, .refused _ | none, .silent => some (context.take handle session received)

/-- The cases of `receive` -/
theorem receive_eq_some {setting : Setting} {moment : Moment} {core : Continuation} {packet : Packet}
    {context after : Ducttape}
    (receives : receive setting moment core packet context = some after) :
    ∃ handle session received, context.session = some handle ∧
      context.sm.find handle = some session ∧
      received = CryptoAuth.receiveMessage setting.cryptoAuth moment.nowSecs (moment.chance 0) packet
        context.rand session.wrapper ∧
      ((∃ sent, received.sent = some sent ∧ outgoingFromCryptoAuth setting moment core
          (headerInFront moment context.ip6Header session received sent) sent
          (context.respond moment handle session received sent) = some after) ∨
        (∃ message, received.outcome = .passed message ∧
          incomingFromCryptoAuth setting core message received.wrapper.herPerminentPubKey
            (context.passOn handle session received message) = some after) ∨
        after = context.take handle session received) := by
  simp only [receive, Option.bind_eq_some_iff] at receives
  rcases receives with ⟨handle, current, session, found, receives⟩
  refine ⟨handle, session, _, current, found, rfl, ?_⟩
  split at receives
  · rename_i sent sends
    exact .inl ⟨sent, sends, receives⟩
  · rename_i message _ passed
    exact .inr (.inl ⟨message, passed, receives⟩)
  · exact .inr (.inr (Option.some.inj receives).symm)
  · exact .inr (.inr (Option.some.inj receives).symm)

/-- `core`, which may be called by `outgoingFromMe` again so many times -/
def core (setting : Setting) : ℕ → Moment → Continuation
  | 0, _, _, _, _ => none
  | depth + 1, moment, header, content, context =>
      let context := { context with ip6Header := header, ip6Length := content.length }
      if header.destinationAddr = setting.myAddr then
        context.current.bind fun session =>
          if session.ip6 ≠ header.sourceAddr then
            -- triple encrypted
            let (sm, inner) := SessionManager.getSession header.sourceAddr none moment.nowSecs
              context.sm
            let packet := setting.readPacket content
            receive setting moment (core setting depth moment.later) packet
              { context with
                sm := sm
                initMessage := packet.nonce.toNat ≤ 3
                session := some inner
                layer := .INNER }
          else
            -- double encrypted, inner layer plaintext
            incomingForMe setting content session.wrapper.herPerminentPubKey false context
      else if header.hopLimit = 0 then some context
      else
        let header := { header with hopLimit := header.hopLimit - 1 }
        let nextHop := context.forwardTo.or (context.router.lookup header.destinationAddr)
        let context := { context with ip6Header := header, forwardTo := none }.log
          (.routed header.destinationAddr nextHop)
        match nextHop with
        | some index =>
            sendToRouter setting moment (.stored index) (header.toBytes ++ content) context
        | none => some context

/-! ## Entry points -/

/-- The session that `incomingFromSwitch` finds, and what it does before the session is called -/
def sessionOf (setting : Setting) (moment : Moment) (handle_be : BitVec 32) (packet : Packet)
    (context : Ducttape) : Option ℕ × Ducttape :=
  if packet.nonce > 3 then
    let realHandle := Endian.bigEndianToHost32 (handle_be &&& ~~~HANDLE_FLAG_BIT_be)
    (SessionManager.sessionForHandle realHandle context.sm, context)
  else if CryptoAuth.Headers_CryptoAuth_SIZE ≤ packet.length then
    let herKey := packet.handshake.publicKey
    let ip6 := setting.addressForPublicKey herKey
    if validAddress ip6 then
      let (sm, session) := SessionManager.getSession ip6 (some herKey) moment.nowSecs context.sm
      (some session, { context with
        sm := sm
        currentSessionSendHandle_be := handle_be ||| HANDLE_FLAG_BIT_be
        currentSessionVersion := 1 })
    else (none, context)
  else (none, context)

/-- `incomingFromSwitch`, for a packet that is no control packet, up to the return of the session -/
def incomingTraffic (setting : Setting) (depth : ℕ) (moment : Moment) (switchHeader : SwitchHeader)
    (handle_be : BitVec 32) (packet : Packet) (context : Ducttape) : Option Ducttape :=
  let switchHeader := { switchHeader with label_be := Bits.bitReverse64 switchHeader.label_be }
  match sessionOf setting moment handle_be packet (context.log (.arrived handle_be packet)) with
  | (none, context) => some context
  | (some session, context) =>
      if packet.nonce = 0xffffffff then some context
      else
        receive setting moment (core setting depth moment.later) packet
          { context with
            switchHeader := some switchHeader
            session := some session
            layer := .OUTER
            frame := { context.frame with traffic := true } }

/-- The cases of `incomingFromSwitch` -/
theorem incomingTraffic_eq_some {setting : Setting} {depth : ℕ} {moment : Moment}
    {switchHeader : SwitchHeader} {handle_be : BitVec 32} {packet : Packet} {context after : Ducttape}
    (receives : incomingTraffic setting depth moment switchHeader handle_be packet context =
      some after) :
    let entered := context.log (.arrived handle_be packet)
    let herKey := packet.handshake.publicKey
    let header := { switchHeader with label_be := Bits.bitReverse64 switchHeader.label_be }
    after = entered ∨
      (∃ handle, packet.nonce > 3 ∧ packet.nonce ≠ 0xffffffff ∧
        SessionManager.sessionForHandle
          (Endian.bigEndianToHost32 (handle_be &&& ~~~HANDLE_FLAG_BIT_be)) context.sm = some handle ∧
        receive setting moment (core setting depth moment.later) packet
          { entered with
            switchHeader := some header
            session := some handle
            layer := .OUTER
            frame := { entered.frame with traffic := true } } = some after) ∨
      ∃ sm handle, packet.nonce ≤ 3 ∧
        (sm, handle) = SessionManager.getSession (setting.addressForPublicKey herKey) (some herKey)
          moment.nowSecs context.sm ∧
        receive setting moment (core setting depth moment.later) packet
          { entered with
            sm := sm
            currentSessionSendHandle_be := handle_be ||| HANDLE_FLAG_BIT_be
            currentSessionVersion := 1
            switchHeader := some header
            session := some handle
            layer := .OUTER
            frame := { entered.frame with traffic := true } } = some after := by
  simp only [incomingTraffic, sessionOf] at receives
  by_cases data : packet.nonce > 3
  · simp only [if_pos data] at receives
    split at receives
    · rename_i missing
      rcases Prod.mk.inj missing with ⟨-, rfl⟩
      exact .inl (Option.some.inj receives).symm
    · rename_i handle entered found
      rcases Prod.mk.inj found with ⟨known, rfl⟩
      split at receives
      · exact .inl (Option.some.inj receives).symm
      · rename_i traffic
        exact .inr (.inl ⟨handle, data, traffic, known, receives⟩)
  · simp only [if_neg data] at receives
    by_cases long : CryptoAuth.Headers_CryptoAuth_SIZE ≤ packet.length
    · by_cases valid : validAddress (setting.addressForPublicKey packet.handshake.publicKey) = true
      · simp only [if_pos long, if_pos valid] at receives
        have other : packet.nonce ≠ 0xffffffff := by
          intro same
          rw [same] at data
          exact data (by decide)
        rw [if_neg other] at receives
        exact .inr (.inr ⟨_, _, BitVec.not_lt.mp data, rfl, receives⟩)
      · simp only [if_pos long, if_neg valid] at receives
        exact .inl (Option.some.inj receives).symm
    · simp only [if_neg long] at receives
      exact .inl (Option.some.inj receives).symm

/-- `Ethernet_TYPE_IP4` -/
def Ethernet_TYPE_IP4 : BitVec 16 :=
  Endian.hostToBigEndian16 0x0800

/-- `Ethernet_TYPE_IP6` -/
def Ethernet_TYPE_IP6 : BitVec 16 :=
  Endian.hostToBigEndian16 0x86DD

/-- The end of `incomingFromTun`, for a packet that goes through other nodes -/
def sendInner (setting : Setting) (depth : ℕ) (moment : Moment) (header : IP6Header)
    (message : List (BitVec 8)) (context : Ducttape) : Option Ducttape :=
  let (sm, handle) := SessionManager.getSession header.destinationAddr none moment.nowSecs context.sm
  (sm.find handle).bind fun session =>
    let wrapper := CryptoAuth.expire setting.cryptoAuth moment.nowSecs session.wrapper
    if message.length < IP6Header_SIZE then none
    else
      let content := message.drop IP6Header_SIZE
      -- The receive handle goes under the header of a handshake packet.
      let content :=
        if wrapper.nextNonce < 4 then Bytes.store32 session.receiveHandle_be ++ content
        else content
      let context := { context with
        sm := sm.modify handle fun session => { session with wrapper := wrapper }
        session := some handle
        layer := .INNER }
      (encrypt setting moment (some header) content context).bind fun (packet, context) =>
        outgoingFromCryptoAuth setting moment (core setting depth moment.later) header packet context

/-- `incomingFromTun` -/
def incomingFromTun (setting : Setting) (depth : ℕ) (moment : Moment) (ethertype : BitVec 16)
    (message : List (BitVec 8)) (context : Ducttape) : Option Ducttape :=
  let header := IP6Header.ofBytes message
  let version := header.getIpVersion
  if ethertype = Ethernet_TYPE_IP4 ∧ version ≠ 4 ∨ ethertype = Ethernet_TYPE_IP6 ∧ version ≠ 6 then
    some context
  else if ethertype ≠ Ethernet_TYPE_IP6 ∨ !validAddress header.sourceAddr then
    some (context.log (.fromTunToTunnel message))
  else if header.sourceAddr ≠ setting.myAddr then some context
  else if header.destinationAddr = setting.myAddr then some (context.log (.echoed message))
  else
    let bestNext := context.router.lookup header.destinationAddr
    let context := { context with switchHeader := none, forwardTo := bestNext }
    match bestNext with
    | some index =>
        if header.destinationAddr = (context.router.nodes index).address.ip6 then
          -- Direct send, skip the innermost layer of encryption.
          sendToRouter setting moment (.stored index) message context
        else sendInner setting depth moment header message context
    | none => some context

/-- The cases of `incomingFromTun` -/
theorem incomingFromTun_eq_some {setting : Setting} {depth : ℕ} {moment : Moment}
    {ethertype : BitVec 16} {message : List (BitVec 8)} {context after : Ducttape}
    (receives : incomingFromTun setting depth moment ethertype message context = some after) :
    let header := IP6Header.ofBytes message
    let asked := { context with
      switchHeader := none
      forwardTo := context.router.lookup header.destinationAddr }
    after = context ∨ after = context.log (.fromTunToTunnel message) ∨
      after = context.log (.echoed message) ∨
      ethertype = Ethernet_TYPE_IP6 ∧ header.getIpVersion = 6 ∧
        validAddress header.sourceAddr = true ∧ header.sourceAddr = setting.myAddr ∧
        header.destinationAddr ≠ setting.myAddr ∧
        ((∃ index, context.router.lookup header.destinationAddr = some index ∧
            (header.destinationAddr = (context.router.nodes index).address.ip6 ∧
                sendToRouter setting moment (.stored index) message asked = some after ∨
              header.destinationAddr ≠ (context.router.nodes index).address.ip6 ∧
                sendInner setting depth moment header message asked = some after)) ∨
          context.router.lookup header.destinationAddr = none ∧ after = asked) := by
  dsimp only
  simp only [incomingFromTun] at receives
  split_ifs at receives with version cjdns source toMe
  · exact .inl (Option.some.inj receives).symm
  · exact .inr (.inl (Option.some.inj receives).symm)
  · exact .inl (Option.some.inj receives).symm
  · exact .inr (.inr (.inl (Option.some.inj receives).symm))
  · simp only [not_or, not_not, Bool.not_eq_true', Bool.not_eq_false, not_and] at version cjdns
    refine .inr (.inr (.inr ⟨cjdns.1, version.2 cjdns.1, cjdns.2, not_not.mp source, toMe, ?_⟩))
    split at receives
    · rename_i index found
      refine .inl ⟨index, found, ?_⟩
      split_ifs at receives with direct
      · exact .inl ⟨direct, receives⟩
      · exact .inr ⟨direct, receives⟩
    · rename_i missing
      exact .inr ⟨missing, (Option.some.inj receives).symm⟩

/-- The IPv6 and UDP headers that `handleOutgoing` puts in front of a message -/
def dhtHeaders (setting : Setting) (destinationAddr : List (BitVec 8)) (message : List (BitVec 8)) :
    IP6Header × List (BitVec 8) :=
  let header : IP6Header := {
    versionClassAndFlowLabel := 0
    flowLabelLow := 0
    payloadLength := BitVec.ofNat 16 (UDPHeader_SIZE + message.length)
    nextHeader := 17
    hopLimit := 0
    sourceAddr := setting.myAddr
    destinationAddr := destinationAddr }
  let udp (checksum_be : BitVec 16) : List (BitVec 8) :=
    [0, 0, 0, 0] ++ Bytes.ofWord16 (BitVec.ofNat 16 message.length) ++
      [checksum_be.extractLsb' 0 8, checksum_be.extractLsb' 8 8]
  (header, udp (Checksum.udpIp6 header (udp 0 ++ message)))

/-- `handleOutgoing`; the version is of the message that is replied to, or left to chance. -/
def handleOutgoing (setting : Setting) (moment : Moment) (address : Address) (version : BitVec 32)
    (message : List (BitVec 8)) (context : Ducttape) : Option Ducttape :=
  let (header, udp) := dhtHeaders setting address.ip6 message
  let pointer := match context.router.getNode address.path with
    | some index => NodePointer.stored index
    | none => .onStack { address := address, version := version }
  sendToRouter setting moment pointer (header.toBytes ++ udp ++ message)
    { context with ip6Header := header, ip6Length := udp.length + message.length, switchHeader := none }

/-- The search that `sendToNode` begins; `timeBetweenSearches` is never set. -/
def beginSearch (moment : Moment) (target : List (BitVec 8)) (context : Ducttape) : Ducttape :=
  if context.timeOfLastSearch < moment.nowMilliseconds then
    { context with timeOfLastSearch := moment.nowMilliseconds }.log (.searched target)
  else context

/-- `sendToNode` -/
def sendToNode (setting : Setting) (moment : Moment) (nodeIp6Addr : List (BitVec 8)) (nodeKey : Key)
    (message : List (BitVec 8)) (context : Ducttape) : Option Ducttape :=
  let context := { context with switchHeader := none }
  match context.router.lookup nodeIp6Addr with
  | some index =>
      if nodeKey = (context.router.nodes index).address.key then
        sendToRouter setting moment (.stored index) message context
      else some (beginSearch moment nodeIp6Addr context)
  | none => some (beginSearch moment nodeIp6Addr context)

/-! ## Runs -/

/-- A call of Ducttape -/
inductive Call where
  | incomingFromSwitch (switchHeader : SwitchHeader) (handle_be : BitVec 32) (packet : Packet)
  | incomingFromTun (ethertype : BitVec 16) (message : List (BitVec 8))
  | handleOutgoing (address : Address) (version : BitVec 32) (message : List (BitVec 8))
  | sendToNode (nodeIp6Addr : List (BitVec 8)) (nodeKey : Key) (message : List (BitVec 8))

/-- What a call does before it returns or calls another component -/
def run (setting : Setting) (depth : ℕ) (moment : Moment) (context : Ducttape) :
    Call → Option Ducttape
  | .incomingFromSwitch switchHeader handle_be packet =>
      incomingTraffic setting depth moment switchHeader handle_be packet context
  | .incomingFromTun ethertype message =>
      incomingFromTun setting depth moment ethertype message context
  | .handleOutgoing address version message =>
      handleOutgoing setting moment address version message context
  | .sendToNode nodeIp6Addr nodeKey message =>
      sendToNode setting moment nodeIp6Addr nodeKey message context

/-- The context between two calls, with the calls that have not returned -/
structure Running where
  context : Ducttape
  stack : List Frame
  /-- The deeds of every step so far -/
  history : List (List Deed)

/-- What is done when the call of another component returns -/
def Frame.finish (frame : Frame) (context : Ducttape) : Ducttape :=
  { context with
    sm := match frame.released with
      | some handle => context.sm.modify handle fun session =>
          { session with wrapper := { session.wrapper with hasBufferedMessage := false } }
      | none => context.sm
    currentSessionVersion := if frame.traffic then 0 else context.currentSessionVersion }

/-- What may happen -/
inductive Event where
  /-- Ducttape is called, from the event loop or by a component that it has called itself. -/
  | called (call : Call)
  /-- The component that was called last returns. -/
  | returned
  /-- The timer of the session manager goes off. -/
  | cleanup
  /-- The DHT has changed its table. -/
  | learned (router : Router)

/-- The context and the stack after a step -/
def step (setting : Setting) (depth : ℕ) (moment : Moment) (context : Ducttape)
    (stack : List Frame) : Event → Option (Ducttape × List Frame)
  | .called call =>
      (run setting depth moment { context with frame := {}, deeds := [] } call).map fun context =>
        if context.deeds.any Deed.isCall then (context, context.frame :: stack)
        else (context.frame.finish context, stack)
  | .returned =>
      match stack with
      | frame :: stack => some (frame.finish { context with deeds := [] }, stack)
      | [] => none
  | .cleanup =>
      if stack.isEmpty then
        some ({ context with
          sm := SessionManager.cleanup moment.nowSecs context.sm, deeds := [] }, stack)
      else none
  | .learned router => some ({ context with router := router, deeds := [] }, stack)

/-- One step; the number says how often `core` may be called in it. -/
def Running.next (setting : Setting) (depth : ℕ) (moment : Moment) (running : Running)
    (event : Event) : Option Running :=
  (step setting depth moment running.context running.stack event).map fun (context, stack) =>
    { context := context, stack := stack, history := running.history ++ [context.deeds] }

theorem next_eq_some {setting : Setting} {depth : ℕ} {moment : Moment} {running next : Running}
    {event : Event} (steps : running.next setting depth moment event = some next) :
    step setting depth moment running.context running.stack event =
        some (next.context, next.stack) ∧
      next.history = running.history ++ [next.context.deeds] := by
  rcases Option.map_eq_some_iff.mp steps with ⟨⟨context, stack⟩, taken, rfl⟩
  exact ⟨taken, rfl⟩

/-- `Ducttape_register` -/
def register (rand : CryptoAuth.Random) (router : Router) : Ducttape where
  sm := Map.empty
  rand := rand
  router := router
  switchHeader := none
  ip6Header := IP6Header.ofBytes []
  ip6Length := 0
  forwardTo := none
  session := none
  timeOfLastSearch := 0
  layer := .INVALID
  initMessage := false
  currentSessionSendHandle_be := 0
  currentSessionVersion := 0
  frame := {}
  deeds := []

/-- All runs, whoever calls whom -/
def runs (setting : Setting) (depth : ℕ) : TransitionSystem Running (Moment × Event) where
  initial running := ∃ rand router,
    running = { context := register rand router, stack := [], history := [] }
  step before event after := before.next setting depth event.1 event.2 = some after

/-- Several steps, one after the other -/
def Running.play (setting : Setting) (depth : ℕ) (moment : Moment) (running : Running) :
    List Event → Option Running
  | [] => some running
  | event :: events =>
      (running.next setting depth moment event).bind fun next => next.play setting depth moment events

theorem play_reachable {setting : Setting} {depth : ℕ} {moment : Moment} {running last : Running}
    {events : List Event} (reachable : (runs setting depth).Reachable (fun _ _ => True) running)
    (played : running.play setting depth moment events = some last) :
    (runs setting depth).Reachable (fun _ _ => True) last := by
  induction events generalizing running with
  | nil =>
      rw [← Option.some.inj played]
      exact reachable
  | cons event events ih =>
      rcases Option.bind_eq_some_iff.mp played with ⟨next, taken, played⟩
      have stepped : (runs setting depth).step running (moment, event) next := taken
      exact ih (.step reachable trivial stepped) played

/-! ## A node among others -/

/-- An address for the first key of every node -/
def addressOf (source : ℕ) : List (BitVec 8) :=
  0xFC :: List.replicate 14 0 ++ [BitVec.ofNat 8 source]

/-- A node with the number 0; no packet of the inner layer gets to it. -/
def quietSetting : Setting where
  cryptoAuth := { privateKey := .random 0 0, passwords := [], resetAfterInactivitySeconds := 60 }
  addressForPublicKey key := match key with
    | .publicKey (.random source 0) => addressOf source
    | _ => List.replicate 16 0
  readPacket _ := {
    nonce := 0
    length := 0
    handshake := {
      auth := CryptoAuth.Chance.zero.auth, nonce := 0, publicKey := .zero, box := none }
    data := none
    garble := CryptoAuth.Chance.zero.garble }
  writePacket _ := []
  hasUserIf := true

def nodeOf (source : ℕ) : Node where
  address := { ip6 := addressOf source, key := .publicKey (.random source 0), path := 0x13 }
  version := 1

/-- The nodes 1 and 2, the second of which is on the way to 3 -/
def smallRouter : Router where
  lookup target :=
    if target = addressOf 1 then some 1
    else if target = addressOf 2 ∨ target = addressOf 3 then some 2
    else none
  getNode _ := none
  nodes := nodeOf

def firstMoment : Moment where
  nowSecs := 1000
  nowMilliseconds := 1000000
  chance _ := .zero
  stale := IP6Header.ofBytes []
  leftover := []

/-- The header of a packet from one node to another -/
def plainHeader (source destination : ℕ) : IP6Header where
  versionClassAndFlowLabel := 0x6000
  flowLabelLow := 0
  payloadLength := 1
  nextHeader := 59
  hopLimit := 64
  sourceAddr := addressOf source
  destinationAddr := addressOf destination

/-- A hello of a node to the node 0 -/
def helloFrom (source : ℕ) (content : List (BitVec 8)) : Packet where
  nonce := 0
  length := CryptoAuth.Headers_CryptoAuth_SIZE + content.length
  handshake := {
    auth := CryptoAuth.Chance.zero.auth
    nonce := 0
    publicKey := .publicKey (.random source 0)
    box := some {
      sharedSecret := CryptoAuth.getSharedSecret (.random source 0) (.publicKey (.random 0 0)) none
      nonce := 0
      encryptedTempKey := .publicKey (.random source 1)
      content := content
      maker := source } }
  data := none
  garble := CryptoAuth.Chance.zero.garble

def plainSwitchHeader : SwitchHeader where
  label_be := 0x13
  lowBits_be := 0

def started : Running where
  context := register { source := 0, drawn := 1 } smallRouter
  stack := []
  history := []

theorem eq_some_getD {α : Type*} {result : Option α} (default : α) (there : result.isSome = true) :
    result = some (result.getD default) := by
  rcases Option.isSome_iff_exists.mp there with ⟨value, rfl⟩
  rfl

end Ducttape

end Cjdns
