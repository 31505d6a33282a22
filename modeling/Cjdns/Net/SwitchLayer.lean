import Cjdns.Switch.LabelSplicer
import Cjdns.Util.Checksum
import Cjdns.Wire.Headers

/-!
# Packets for this node

`incomingFromSwitch` of `Ducttape.c` is what the switch calls for slot 1. The
functions here work on the message in memory, down to the point where a session
takes the message; what they pass on is recorded as a list of effects. A
function has no result where an assertion fails.
-/

namespace Cjdns.Ducttape

/-- What is passed on to the rest of the node. -/
inductive Effect where
  /-- `RouterModule_brokenPath` -/
  | brokenPath (label : BitVec 64)
  /-- `receiveMessage` of the switch, with a pong -/
  | toSwitch (message : Message)
  /-- `receiveMessage` of the switch pinger -/
  | toPinger (message : Message)
  /-- `receiveMessage` of a session, with the handle that a handshake packet carries -/
  | toSession (session : ℕ) (sendHandle_be : Option (BitVec 32)) (message : Message)

/-- What the functions here call. -/
structure SwitchLayer where
  /-- whether the switch pinger is registered -/
  hasPinger : Bool
  /-- `SessionManager_sessionForHandle` -/
  sessionForHandle : BitVec 32 → Option ℕ
  /-- `SessionManager_getSession` -/
  getSession : List (BitVec 8) → List (BitVec 8) → ℕ
  /-- `AddressCalc_addressForPublicKey` -/
  addressForPublicKey : List (BitVec 8) → List (BitVec 8)

/-- `AddressCalc_validAddress` -/
def validAddress (address : List (BitVec 8)) : Bool :=
  address.head? = some 0xFC

/-- `HANDLE_FLAG_BIT_be` -/
def HANDLE_FLAG_BIT_be : BitVec 32 :=
  Endian.hostToBigEndian32 0x80000000

/-- `Version_CURRENT_PROTOCOL` -/
def CURRENT_PROTOCOL : BitVec 32 := 2

/-- The assertion and the result of `Checksum_engine` over a whole message. -/
def checksum (message : Message) : Option (BitVec 16) :=
  if message.bytes % 2 = 0 then
    some (Checksum.engine message.memory message.bytes (BitVec.ofNat 16 message.length))
  else none

/--
The branch of `handleControlMessage` for error packets: whether the packet is
passed on to the pinger, or nothing where the function returns before it gets there.
-/
def handleError (message : Message) (label : BitVec 64) : Option Bool :=
  let ctrl := message.bytes
  let cause := ctrl + Control.HEADER_SIZE + Control.Error_HEADER_SIZE
  let causeType := Headers.getMessageType message.memory cause
  if causeType = Headers.SwitchHeader_TYPE_CONTROL then
    if message.length < Control.Error_MIN_SIZE + Control.HEADER_SIZE then none
    else
      let causeCtrl := cause + Headers.SwitchHeader_SIZE
      if Control.type_be message.memory causeCtrl ≠ Control.PING_be then some false
      else if LabelSplicer.isOneHop label ∧ Control.errorType_be message.memory ctrl =
          Endian.hostToBigEndian32 (Error.UNDELIVERABLE.setWidth 32) then
        -- our own InterfaceController complaining that the node does not respond
        none
      else some true
  else some false

/-- The end of `handleControlMessage`, where pongs are passed on to the pinger. -/
def passOnPong (context : SwitchLayer) (pong : Bool) (effects : List Effect) (message : Message) :
    Option (BitVec 8 × Message × List Effect) :=
  if pong ∧ context.hasPinger then
    (message.shift Headers.SwitchHeader_SIZE).map fun message =>
      (Error.NONE, message, effects ++ [.toPinger message])
  else some (Error.NONE, message, effects)

/-- `handleControlMessage` -/
def handleControlMessage (context : SwitchLayer) (message : Message) (switchHeader : ℤ) :
    Option (BitVec 8 × Message × List Effect) :=
  let label := Headers.label message.memory switchHeader
  if message.length < Control.HEADER_SIZE then some (Error.NONE, message, [])
  else
    let ctrl := message.bytes
    (checksum message).bind fun sum =>
      if sum ≠ 0 then some (Error.NONE, message, [])
      else if Control.type_be message.memory ctrl = Control.ERROR_be then
        if message.length < Control.Error_MIN_SIZE then some (Error.NONE, message, [])
        else
          match handleError message label with
          | none => some (Error.NONE, message, [.brokenPath label])
          | some pong => passOnPong context pong [.brokenPath label] message
      else if Control.type_be message.memory ctrl = Control.PONG_be then
        passOnPong context true [] message
      else if Control.type_be message.memory ctrl = Control.PING_be then
        (message.shift (-Control.HEADER_SIZE)).bind fun message =>
          if message.length < Control.Ping_MIN_SIZE then some (Error.INVALID, message, [])
          else
            let ping := message.bytes
            let memory := message.memory.store ping Control.Pong_MAGIC
            let memory := memory.store (ping + 4) (Endian.hostToBigEndian32 CURRENT_PROTOCOL)
            ({ message with memory := memory }.shift Control.HEADER_SIZE).bind fun message =>
              let memory := Control.setType_be message.memory ctrl Control.PONG_be
              let memory := Control.setChecksum_be memory ctrl 0
              (checksum { message with memory := memory }).bind fun sum =>
                let memory := Control.setChecksum_be memory ctrl sum
                ({ message with memory := memory }.shift Headers.SwitchHeader_SIZE).map
                  fun message => (Error.NONE, message, [.toSwitch message])
      else some (Error.NONE, message, [])

/-- `incomingFromSwitch`, up to the call of a session's `receiveMessage` -/
def incomingFromSwitch (context : SwitchLayer) (message : Message) :
    Option (BitVec 8 × Message × List Effect) :=
  let switchHeader := message.bytes
  (message.shift (-Headers.SwitchHeader_SIZE)).bind fun message =>
    let memory := Headers.setLabel_be message.memory switchHeader
      (Bits.bitReverse64 (Headers.label_be message.memory switchHeader))
    let message := { message with memory := memory }
    if Headers.getMessageType memory switchHeader = Headers.SwitchHeader_TYPE_CONTROL then
      handleControlMessage context message switchHeader
    else if message.length < 8 then some (Error.INVALID, message, [])
    else
      let handle_be := memory.load message.bytes 32
      (message.shift (-4)).bind fun message =>
        let nonce := Endian.bigEndianToHost32 (memory.load message.bytes 32)
        if nonce > 3 then
          let realHandle := Endian.bigEndianToHost32 (handle_be &&& ~~~HANDLE_FLAG_BIT_be)
          match context.sessionForHandle realHandle with
          | some session =>
              if nonce = 0xffffffff then some (Error.NONE, message, [])
              else some (Error.NONE, message, [.toSession session none message])
          | none => some (Error.NONE, message, [])
        else if message.length ≥ 120 then
          -- the permanent public key in a CryptoAuth handshake header
          let herKey := memory.read (message.bytes + 40) 32
          let ip6 := context.addressForPublicKey herKey
          if validAddress ip6 then
            some (Error.NONE, message, [.toSession (context.getSession ip6 herKey)
              (some (handle_be ||| HANDLE_FLAG_BIT_be)) message])
          else some (Error.NONE, message, [])
        else some (Error.NONE, message, [])

variable {context : SwitchLayer} {message left : Message} {err : BitVec 8}
  {effects : List Effect}

theorem passOnPong_err {pong : Bool} {before : List Effect}
    (passes : passOnPong context pong before message = some (err, left, effects)) :
    err = Error.NONE := by
  rw [passOnPong] at passes
  split_ifs at passes
  · simp only [Option.map_eq_some_iff, Prod.mk.injEq] at passes
    obtain ⟨_, -, rfl, -⟩ := passes
    rfl
  · simp only [Option.some.injEq, Prod.mk.injEq] at passes
    exact passes.1.symm

/-- A control message is refused only where a ping is too short to have a header. -/
theorem handleControlMessage_err {switchHeader : ℤ}
    (handles : handleControlMessage context message switchHeader = some (err, left, effects))
    (fails : err ≠ Error.NONE) : left.length < Control.Ping_MIN_SIZE := by
  simp only [handleControlMessage] at handles
  by_cases runt : message.length < Control.HEADER_SIZE
  · simp only [if_pos runt, Option.some.injEq, Prod.mk.injEq] at handles
    exact absurd handles.1.symm fails
  rw [if_neg runt, Option.bind_eq_some_iff] at handles
  obtain ⟨sum, -, handles⟩ := handles
  by_cases invalid : sum ≠ 0
  · simp only [if_pos invalid, Option.some.injEq, Prod.mk.injEq] at handles
    exact absurd handles.1.symm fails
  rw [if_neg invalid] at handles
  by_cases isError : Control.type_be message.memory message.bytes = Control.ERROR_be
  · rw [if_pos isError] at handles
    split_ifs at handles
    · simp only [Option.some.injEq, Prod.mk.injEq] at handles
      exact absurd handles.1.symm fails
    · split at handles
      · simp only [Option.some.injEq, Prod.mk.injEq] at handles
        exact absurd handles.1.symm fails
      · exact absurd (passOnPong_err handles) fails
  rw [if_neg isError] at handles
  by_cases isPong : Control.type_be message.memory message.bytes = Control.PONG_be
  · rw [if_pos isPong] at handles
    exact absurd (passOnPong_err handles) fails
  rw [if_neg isPong] at handles
  split_ifs at handles
  · rw [Option.bind_eq_some_iff] at handles
    obtain ⟨shifted, -, handles⟩ := handles
    by_cases runtPing : shifted.length < Control.Ping_MIN_SIZE
    · simp only [if_pos runtPing, Option.some.injEq, Prod.mk.injEq] at handles
      rw [← handles.2.1]
      exact runtPing
    · simp only [if_neg runtPing, Option.bind_eq_some_iff, Option.map_eq_some_iff,
        Prod.mk.injEq] at handles
      obtain ⟨_, -, _, -, _, -, rfl, -⟩ := handles
      exact absurd rfl fails
  · simp only [Option.some.injEq, Prod.mk.injEq] at handles
    exact absurd handles.1.symm fails

/--
A packet for this node is refused only where what is left of it, without the
headers that have been taken off, is shorter than a switch header.
-/
theorem incomingFromSwitch_err
    (receives : incomingFromSwitch context message = some (err, left, effects))
    (fails : err ≠ Error.NONE) : left.length < 8 := by
  simp only [incomingFromSwitch, Option.bind_eq_some_iff] at receives
  obtain ⟨shifted, -, receives⟩ := receives
  split_ifs at receives with control runt
  · exact handleControlMessage_err receives fails
  · simp only [Option.some.injEq, Prod.mk.injEq] at receives
    rw [← receives.2.1]
    exact runt
  · rw [Option.bind_eq_some_iff] at receives
    obtain ⟨popped, -, receives⟩ := receives
    repeat' split at receives
    all_goals
      simp only [Option.some.injEq, Prod.mk.injEq] at receives
      exact absurd receives.1.symm fails

/-- A data packet without room for a handle and a nonce is refused after its header is taken off. -/
theorem incomingFromSwitch_runt
    (data : Headers.getMessageType message.memory message.bytes ≠
      Headers.SwitchHeader_TYPE_CONTROL)
    (long : Headers.SwitchHeader_SIZE ≤ message.length)
    (runt : message.length < Headers.SwitchHeader_SIZE + 8) :
    incomingFromSwitch context message = some (Error.INVALID,
      { memory := Headers.setLabel_be message.memory message.bytes
          (Bits.bitReverse64 (Headers.label_be message.memory message.bytes))
        length := message.length - Headers.SwitchHeader_SIZE
        padding := message.padding + Headers.SwitchHeader_SIZE
        bytes := message.bytes + Headers.SwitchHeader_SIZE }, []) := by
  have stays : Headers.getMessageType (Headers.setLabel_be message.memory message.bytes
      (Bits.bitReverse64 (Headers.label_be message.memory message.bytes))) message.bytes ≠
        Headers.SwitchHeader_TYPE_CONTROL := by
    rwa [Headers.getMessageType, Headers.lowBits_be_setLabel_be]
  have short : message.length - Headers.SwitchHeader_SIZE < 8 := by
    change 12 ≤ message.length at long
    change message.length < 20 at runt
    change message.length - 12 < 8
    omega
  rw [incomingFromSwitch, Message.shift_neg message long]
  simp only [Option.bind_some, if_neg stays, if_pos short]

end Cjdns.Ducttape
