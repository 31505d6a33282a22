import Cjdns.Net.SwitchLayer

/-!
# Short control packets

Three modules look at a control packet one after the other: `handleControlMessage` of `Ducttape.c`,
`receiveMessage` of `SwitchPinger.c` and `Pinger_pongReceived`. Each has its own idea of how long a
packet must be. What is read of a packet is recorded here as a list of spans beside the functions
themselves.
-/

namespace Cjdns

/-! ## The pinger -/

namespace Pinger

/-- `Pinger_MAX_CONCURRENT_PINGS` -/
abbrev MAX_CONCURRENT_PINGS : ℕ := 256

/-- The slots of `struct Pinger` that are not null -/
abbrev Pings : Type :=
  Fin MAX_CONCURRENT_PINGS → Bool

/-- What `Pinger_pongReceived` reads -/
def pongReads (data : Message) : List Span :=
  [{ place := data.bytes, size := 4 }]

/-- `Pinger_pongReceived`, with the slot of the ping whose callback it calls -/
def pongReceived (data : Message) (pings : Pings) : Option (Fin MAX_CONCURRENT_PINGS) :=
  let slot := data.memory.load data.bytes 32
  if inside : slot.toNat < MAX_CONCURRENT_PINGS then
    if pings ⟨slot.toNat, inside⟩ then some ⟨slot.toNat, inside⟩ else none
  else none

end Pinger

/-! ## The switch pinger -/

namespace SwitchPinger

/-- `Control_Ping_HEADER_SIZE` and `Control_Pong_HEADER_SIZE` -/
abbrev Ping_HEADER_SIZE : ℕ := 8

/-- `Control_Pong_MIN_SIZE` -/
abbrev Pong_MIN_SIZE : ℕ := Control.Ping_MIN_SIZE

/-- What is in front of the data of the ping that an error quotes -/
abbrev quotedHeaders : ℕ :=
  Control.HEADER_SIZE + Control.Error_HEADER_SIZE + Headers.SwitchHeader_SIZE +
    Control.HEADER_SIZE + Ping_HEADER_SIZE

/-- The fields of `struct SwitchPinger` for the message that came in -/
structure Incoming where
  incomingLabel : BitVec 64
  incomingVersion : BitVec 32
  isError : Bool

/-- What `receiveMessage` does with a message -/
inductive Received where
  /-- `Error_INVALID` -/
  | invalid
  | pongReceived (incoming : Incoming) (data : Message)

/-- `receiveMessage`; there is no result where an assertion fails. -/
def receiveMessage (msg : Message) : Option Received :=
  let switchHeader := msg.bytes
  let incomingLabel := Headers.label msg.memory switchHeader
  if Headers.getMessageType msg.memory switchHeader ≠ Headers.SwitchHeader_TYPE_CONTROL then none
  else
    (msg.shift (-Headers.SwitchHeader_SIZE)).bind fun msg =>
      let ctrl := msg.bytes
      if Control.type_be msg.memory ctrl = Control.PONG_be then
        (msg.shift (-Control.HEADER_SIZE)).bind fun msg =>
          let pongHeader := msg.bytes
          if Pong_MIN_SIZE ≤ msg.length then
            let incomingVersion :=
              Endian.bigEndianToHost32 (msg.memory.load (pongHeader + 4) 32)
            (msg.shift (-Ping_HEADER_SIZE)).map fun msg =>
              if msg.memory.load pongHeader 32 ≠ Control.Pong_MAGIC then .invalid
              else .pongReceived ⟨incomingLabel, incomingVersion, false⟩ msg
          else some .invalid
      else if Control.type_be msg.memory ctrl = Control.ERROR_be then
        (msg.shift (-quotedHeaders)).map fun msg =>
          .pongReceived ⟨incomingLabel, 0, true⟩ msg
      else none

/-- What `receiveMessage` reads, up to the call of `Pinger_pongReceived` -/
def receiveReads (msg : Message) : List Span :=
  let ctrl := msg.bytes + Headers.SwitchHeader_SIZE
  let pongHeader := ctrl + Control.HEADER_SIZE
  [{ place := msg.bytes, size := Headers.SwitchHeader_SIZE }, { place := ctrl + 2, size := 2 }] ++
    if Control.type_be msg.memory ctrl = Control.PONG_be ∧
        Headers.SwitchHeader_SIZE + Control.HEADER_SIZE + Pong_MIN_SIZE ≤ msg.length then
      [{ place := pongHeader + 4, size := 4 }, { place := pongHeader, size := 4 }]
    else []

/-- What is read from the call of `receiveMessage` on -/
def reads (msg : Message) : List Span :=
  receiveReads msg ++
    match receiveMessage msg with
    | some (.pongReceived _ data) => Pinger.pongReads data
    | _ => []

/-- The slot of the ping that a message completes -/
def completes (pings : Pinger.Pings) : Received → Option (Fin Pinger.MAX_CONCURRENT_PINGS)
  | .invalid => none
  | .pongReceived _ data => Pinger.pongReceived data pings

end SwitchPinger

namespace Ducttape

/-- What the branch of `handleControlMessage` for error packets reads -/
def errorReads (message : Message) : List Span :=
  let ctrl := message.bytes
  let cause := ctrl + Control.HEADER_SIZE + Control.Error_HEADER_SIZE
  let causeCtrl := cause + Headers.SwitchHeader_SIZE
  let errorType : Span := { place := ctrl + 4, size := 4 }
  { place := cause + 8, size := 4 } ::
    if Headers.getMessageType message.memory cause = Headers.SwitchHeader_TYPE_CONTROL then
      if message.length < Control.Error_MIN_SIZE + Control.HEADER_SIZE then []
      else
        { place := causeCtrl + 2, size := 2 } ::
          if Control.type_be message.memory causeCtrl = Control.PING_be then [errorType] else []
    else if Headers.getMessageType message.memory cause = Headers.SwitchHeader_TYPE_DATA then
      [errorType]
    else []

/-- What `handleControlMessage` reads -/
def controlReads (message : Message) : List Span :=
  let ctrl := message.bytes
  let whole : Span := { place := ctrl, size := message.length % 2 ^ 16 }
  if message.length < Control.HEADER_SIZE then []
  else if checksum message ≠ some 0 then [whole]
  else
    [whole, { place := ctrl + 2, size := 2 }] ++
      if Control.type_be message.memory ctrl = Control.ERROR_be then
        if message.length < Control.Error_MIN_SIZE then [] else errorReads message
      else []

/-- A message is passed on to the pinger; there is no result where an assertion fails. -/
def deliver (pings : Pinger.Pings) :
    Effect → Option (Option (Fin Pinger.MAX_CONCURRENT_PINGS))
  | .toPinger message => (SwitchPinger.receiveMessage message).map (SwitchPinger.completes pings)
  | _ => some none

/-- What is read of a message that is passed on to the pinger -/
def deliverReads : Effect → List Span
  | .toPinger message => SwitchPinger.reads message
  | _ => []

/-- A control packet goes its way through the three modules. -/
def handlePacket (context : SwitchLayer) (pings : Pinger.Pings) (message : Message)
    (switchHeader : ℤ) : Option (List (Fin Pinger.MAX_CONCURRENT_PINGS)) :=
  (handleControlMessage context message switchHeader).bind fun handled =>
    (handled.2.2.mapM (deliver pings)).map List.reduceOption

/-- What the three modules read of a control packet -/
def packetReads (context : SwitchLayer) (message : Message) (switchHeader : ℤ) : List Span :=
  controlReads message ++
    match handleControlMessage context message switchHeader with
    | some (_, _, effects) => effects.flatMap deliverReads
    | none => []

/-! ## What a control packet must not do -/

/-- A control packet as `incomingFromSwitch` hands it on, with a correct checksum -/
structure Delivered (message : Message) (switchHeader : ℤ) : Prop where
  header : switchHeader = message.bytes - Headers.SwitchHeader_SIZE
  padded : Headers.SwitchHeader_SIZE ≤ message.padding
  control : Headers.getMessageType message.memory switchHeader = Headers.SwitchHeader_TYPE_CONTROL
  valid : checksum message = some 0

/-- The number of data bytes of a pong, or of the ping that an error quotes -/
def dataLength (message : Message) : ℤ :=
  if Control.type_be message.memory message.bytes = Control.PONG_be then
    (message.length : ℤ) - (Control.HEADER_SIZE + SwitchPinger.Ping_HEADER_SIZE)
  else (message.length : ℤ) - SwitchPinger.quotedHeaders

/-- No assertion fails, nothing beyond the end of the message is read, and where there is too little
data to name a ping, none is completed. -/
structure Survives (context : SwitchLayer) (pings : Pinger.Pings) (message : Message)
    (switchHeader : ℤ) : Prop where
  asserts : (handlePacket context pings message switchHeader).isSome
  reads : ∀ span ∈ packetReads context message switchHeader, span.Within message
  quoted : ∀ slots, handlePacket context pings message switchHeader = some slots → slots ≠ [] →
    4 ≤ dataLength message

/-- An error is too short for its cause. -/
def RuntCause (message : Message) : Prop :=
  message.length < Control.HEADER_SIZE + Control.Error_MIN_SIZE ∨
    Headers.getMessageType message.memory
        (message.bytes + Control.HEADER_SIZE + Control.Error_HEADER_SIZE) =
      Headers.SwitchHeader_TYPE_CONTROL ∧
        message.length < Control.HEADER_SIZE + Control.Error_MIN_SIZE + Control.HEADER_SIZE

/-- A packet is long enough to be looked at, and too short for what is read of it. -/
def Runt (context : SwitchLayer) (message : Message) (label : BitVec 64) : Prop :=
  Control.type_be message.memory message.bytes = Control.ERROR_be ∧
      Control.Error_MIN_SIZE ≤ message.length ∧
      (RuntCause message ∨ handleError message label = some true ∧ context.hasPinger = true ∧
        message.length < SwitchPinger.quotedHeaders + 4) ∨
    Control.type_be message.memory message.bytes = Control.PONG_be ∧ context.hasPinger = true ∧
      Control.HEADER_SIZE + SwitchPinger.Pong_MIN_SIZE ≤ message.length ∧
      message.length < Control.HEADER_SIZE + SwitchPinger.Pong_MIN_SIZE + 4 ∧
      message.memory.load (message.bytes + Control.HEADER_SIZE) 32 = Control.Pong_MAGIC

/-! ## Results -/

variable {context : SwitchLayer} {pings : Pinger.Pings} {message : Message} {switchHeader : ℤ}

/-- The message with its switch header -/
def headed (message : Message) : Message :=
  { message with
    length := message.length + Headers.SwitchHeader_SIZE
    bytes := message.bytes - Headers.SwitchHeader_SIZE
    padding := message.padding - Headers.SwitchHeader_SIZE }

theorem shift_headed (padded : Headers.SwitchHeader_SIZE ≤ message.padding) :
    (headed message).shift (-Headers.SwitchHeader_SIZE) = some message := by
  rw [Message.shift_neg _ (by simp [headed])]
  simp only [headed, Nat.add_sub_cancel, sub_add_cancel, Nat.sub_add_cancel padded]

/-- A packet is passed on to the pinger. -/
def PassedOn (context : SwitchLayer) (message : Message) (label : BitVec 64) : Prop :=
  context.hasPinger = true ∧
    (Control.type_be message.memory message.bytes = Control.ERROR_be ∧
        Control.Error_MIN_SIZE ≤ message.length ∧ handleError message label = some true ∨
      Control.type_be message.memory message.bytes = Control.PONG_be ∧
        Control.HEADER_SIZE ≤ message.length)

theorem passOnPong_eq (padded : Headers.SwitchHeader_SIZE ≤ message.padding) (pong : Bool)
    (effects : List Effect) :
    passOnPong context pong effects message =
      if pong = true ∧ context.hasPinger = true then
        some (Error.NONE, headed message, effects ++ [.toPinger (headed message)])
      else some (Error.NONE, message, effects) := by
  rw [passOnPong, Message.shift_pos message (by decide) padded]
  rfl

/-- Nothing is passed on to the pinger. -/
def Silent (effects : List Effect) : Prop :=
  ∀ effect ∈ effects, ∀ message, effect ≠ .toPinger message

/-- `handleControlMessage` comes to its end, and has passed the packet on or not. -/
theorem handled (delivered : Delivered message switchHeader) :
    (PassedOn context message (Headers.label message.memory switchHeader) ∧
      ∃ err left before, Silent before ∧ handleControlMessage context message switchHeader =
        some (err, left, before ++ [.toPinger (headed message)])) ∨
    ¬ PassedOn context message (Headers.label message.memory switchHeader) ∧
      ∃ err left effects, Silent effects ∧
        handleControlMessage context message switchHeader = some (err, left, effects) := by
  rcases delivered with ⟨-, padded, -, valid⟩
  have nothing : Silent [] := fun _ inside => absurd inside List.not_mem_nil
  have broken (label : BitVec 64) : Silent [.brokenPath label] := by
    intro effect inside other same
    rw [List.mem_singleton.mp inside] at same
    cases same
  have notError : Control.PONG_be ≠ Control.ERROR_be := by decide
  have aligned : message.bytes % 2 = 0 := by
    rw [checksum] at valid
    split_ifs at valid with even
    exact even
  rw [handleControlMessage]
  dsimp only
  by_cases runt : message.length < Control.HEADER_SIZE
  · rw [if_pos runt]
    refine .inr ⟨?_, _, _, _, nothing, rfl⟩
    rintro ⟨-, ⟨-, long, -⟩ | ⟨-, long⟩⟩
    · change 16 ≤ message.length at long
      change message.length < 4 at runt
      omega
    · exact absurd runt (not_lt.mpr long)
  rw [if_neg runt, valid, Option.bind_some, if_neg (not_not.mpr rfl)]
  by_cases isError : Control.type_be message.memory message.bytes = Control.ERROR_be
  · rw [if_pos isError]
    by_cases short : message.length < Control.Error_MIN_SIZE
    · rw [if_pos short]
      refine .inr ⟨?_, _, _, _, nothing, rfl⟩
      rintro ⟨-, ⟨-, long, -⟩ | ⟨isPong, -⟩⟩
      · exact absurd short (not_lt.mpr long)
      · exact notError (isPong.symm.trans isError)
    rw [if_neg short]
    cases outcome : handleError message (Headers.label message.memory switchHeader) with
    | none =>
        refine .inr ⟨?_, _, _, _, broken _, rfl⟩
        rintro ⟨-, ⟨-, -, passes⟩ | ⟨isPong, -⟩⟩
        · rw [outcome] at passes
          cases passes
        · exact notError (isPong.symm.trans isError)
    | some pong =>
        dsimp only
        rw [passOnPong_eq padded]
        by_cases passes : pong = true ∧ context.hasPinger = true
        · rw [if_pos passes]
          refine .inl ⟨⟨passes.2, .inl ⟨isError, not_lt.mp short, ?_⟩⟩, _, _, _, broken _, rfl⟩
          rw [outcome, passes.1]
        · rw [if_neg passes]
          refine .inr ⟨?_, _, _, _, broken _, rfl⟩
          rintro ⟨pinger, ⟨-, -, same⟩ | ⟨isPong, -⟩⟩
          · rw [outcome, Option.some.injEq] at same
            exact passes ⟨same, pinger⟩
          · exact notError (isPong.symm.trans isError)
  rw [if_neg isError]
  by_cases isPong : Control.type_be message.memory message.bytes = Control.PONG_be
  · rw [if_pos isPong, passOnPong_eq padded]
    by_cases pinger : context.hasPinger = true
    · rw [if_pos ⟨rfl, pinger⟩]
      exact .inl ⟨⟨pinger, .inr ⟨isPong, not_lt.mp runt⟩⟩, _, _, _, nothing, rfl⟩
    · rw [if_neg (fun passes => pinger passes.2)]
      exact .inr ⟨fun passes => pinger passes.1, _, _, _, nothing, rfl⟩
  rw [if_neg isPong]
  have notPassed : ¬ PassedOn context message (Headers.label message.memory switchHeader) := by
    rintro ⟨-, ⟨one, -⟩ | ⟨other, -⟩⟩
    · exact isError one
    · exact isPong other
  refine .inr ⟨notPassed, ?_⟩
  by_cases isPing : Control.type_be message.memory message.bytes = Control.PING_be
  · rw [if_pos isPing, Message.shift_neg message (not_lt.mp runt), Option.bind_some]
    dsimp only
    by_cases short : message.length - Control.HEADER_SIZE < Control.Ping_MIN_SIZE
    · rw [if_pos short]
      exact ⟨_, _, _, nothing, rfl⟩
    rw [if_neg short, Message.shift_pos _ (by decide) (Nat.le_add_left ..), Option.bind_some]
    dsimp only
    rw [checksum, if_pos (by rw [add_sub_cancel_right]; exact aligned), Option.bind_some,
      Message.shift_pos _ (by decide) (by rw [Nat.add_sub_cancel]; exact padded), Option.map_some]
    refine ⟨_, _, _, fun effect inside other same => ?_, rfl⟩
    rw [List.mem_singleton.mp inside] at same
    cases same
  · rw [if_neg isPing]
    exact ⟨_, _, _, nothing, rfl⟩

/-- What `receiveMessage` itself reads is there. -/
theorem receiveReads_within (long : Control.HEADER_SIZE ≤ message.length) {span : Span}
    (inside : span ∈ SwitchPinger.receiveReads (headed message)) : span.Within message := by
  change 4 ≤ message.length at long
  rw [SwitchPinger.receiveReads] at inside
  simp only [List.mem_append, List.mem_cons, List.not_mem_nil, or_false] at inside
  rw [Span.Within]
  rcases inside with (rfl | rfl) | inside
  · simp [headed]
  · simp only [headed]
    push_cast
    omega
  · split_ifs at inside with enough
    · have far : 12 + 4 + 8 ≤ message.length + 12 := enough.2
      simp only [List.mem_cons, List.not_mem_nil, or_false] at inside
      rcases inside with rfl | rfl
      · simp only [headed]
        push_cast
        omega
      · simp only [headed]
        push_cast
        omega
    · exact absurd inside List.not_mem_nil

theorem errorReads_within_iff (long : Control.Error_MIN_SIZE ≤ message.length) :
    (∀ span ∈ errorReads message, span.Within message) ↔ ¬ RuntCause message := by
  change 16 ≤ message.length at long
  have errorType : Span.Within message { place := message.bytes + 4, size := 4 } := by
    rw [Span.Within]
    push_cast
    omega
  have causeType : Span.Within message
      { place := message.bytes + Control.HEADER_SIZE + Control.Error_HEADER_SIZE + 8, size := 4 } ↔
        20 ≤ message.length := by
    rw [Span.Within]
    push_cast
    omega
  have typeOfCause : Span.Within message
      { place := message.bytes + Control.HEADER_SIZE + Control.Error_HEADER_SIZE +
          Headers.SwitchHeader_SIZE + 2, size := 2 } ↔ 24 ≤ message.length := by
    rw [Span.Within]
    push_cast
    omega
  rw [errorReads, RuntCause, List.forall_mem_cons, causeType]
  change _ ↔ ¬ (message.length < 20 ∨ _ ∧ message.length < 24)
  by_cases short : message.length < 20
  · exact iff_of_false (fun holds => absurd holds.1 (not_le.mpr short))
      fun runt => runt (.inl short)
  have enough : ¬ message.length < Control.Error_MIN_SIZE + Control.HEADER_SIZE := short
  by_cases control : Headers.getMessageType message.memory
      (message.bytes + Control.HEADER_SIZE + Control.Error_HEADER_SIZE) =
        Headers.SwitchHeader_TYPE_CONTROL
  · rw [if_pos control, if_neg enough, List.forall_mem_cons, typeOfCause]
    have rest : ∀ span ∈ (if Control.type_be message.memory
        (message.bytes + Control.HEADER_SIZE + Control.Error_HEADER_SIZE +
          Headers.SwitchHeader_SIZE) = Control.PING_be
        then [({ place := message.bytes + 4, size := 4 } : Span)] else []),
          span.Within message := by
      intro span inside
      split_ifs at inside
      · rw [List.mem_singleton.mp inside]
        exact errorType
      · exact absurd inside List.not_mem_nil
    simp only [control, short, false_or, true_and, not_lt]
    exact ⟨fun holds => holds.2.1, fun long => ⟨by omega, long, rest⟩⟩
  · rw [if_neg control]
    refine iff_of_true ⟨not_lt.mp short, fun span inside => ?_⟩ fun runt => ?_
    · split_ifs at inside
      · rw [List.mem_singleton.mp inside]
        exact errorType
      · exact absurd inside List.not_mem_nil
    · rcases runt with runt | ⟨isControl, -⟩
      · exact short runt
      · exact control isControl

theorem controlReads_within_iff (valid : checksum message = some 0) :
    (∀ span ∈ controlReads message, span.Within message) ↔
      ¬ (Control.type_be message.memory message.bytes = Control.ERROR_be ∧
        Control.Error_MIN_SIZE ≤ message.length ∧ RuntCause message) := by
  rw [controlReads]
  by_cases runt : message.length < Control.HEADER_SIZE
  · rw [if_pos runt]
    refine iff_of_true (fun _ inside => absurd inside List.not_mem_nil) fun ⟨_, long, _⟩ => ?_
    change 16 ≤ message.length at long
    change message.length < 4 at runt
    omega
  have whole : Span.Within message { place := message.bytes, size := message.length % 2 ^ 16 } := by
    have less := Nat.mod_le message.length (2 ^ 16)
    rw [Span.Within]
    dsimp only
    omega
  have ctrlType : Span.Within message { place := message.bytes + 2, size := 2 } := by
    change ¬ message.length < 4 at runt
    rw [Span.Within]
    push_cast
    omega
  rw [if_neg runt, if_neg (not_not.mpr valid), List.cons_append, List.singleton_append,
    List.forall_mem_cons, List.forall_mem_cons]
  simp only [whole, ctrlType, true_and]
  by_cases isError : Control.type_be message.memory message.bytes = Control.ERROR_be
  · simp only [isError, if_true, true_and]
    by_cases short : message.length < Control.Error_MIN_SIZE
    · rw [if_pos short]
      exact iff_of_true (fun _ inside => absurd inside List.not_mem_nil)
        fun holds => absurd short (not_lt.mpr holds.1)
    · rw [if_neg short, errorReads_within_iff (not_lt.mp short)]
      simp only [not_lt.mp short, true_and]
  · simp only [isError, if_false, false_and, not_false_eq_true, iff_true]
    exact fun _ inside => absurd inside List.not_mem_nil

/-- The pinger gets the data of a pong that has a header with the right magic. -/
theorem receiveMessage_pong (delivered : Delivered message switchHeader)
    (long : Control.HEADER_SIZE ≤ message.length)
    (isPong : Control.type_be message.memory message.bytes = Control.PONG_be) :
    SwitchPinger.receiveMessage (headed message) = some .invalid ∧
        (message.length < 12 ∨
          message.memory.load (message.bytes + Control.HEADER_SIZE) 32 ≠ Control.Pong_MAGIC) ∨
      ∃ incoming data,
        SwitchPinger.receiveMessage (headed message) = some (.pongReceived incoming data) ∧
          data.bytes = message.bytes + 12 ∧ 12 ≤ message.length ∧
          message.memory.load (message.bytes + Control.HEADER_SIZE) 32 = Control.Pong_MAGIC := by
  rcases delivered with ⟨rfl, padded, control, -⟩
  have isControl : ¬ Headers.getMessageType (headed message).memory (headed message).bytes ≠
      Headers.SwitchHeader_TYPE_CONTROL := not_not.mpr control
  rw [SwitchPinger.receiveMessage, if_neg isControl, shift_headed padded, Option.bind_some,
    if_pos isPong, Message.shift_neg message long, Option.bind_some]
  dsimp only
  by_cases short : message.length - Control.HEADER_SIZE < SwitchPinger.Pong_MIN_SIZE
  · rw [if_neg (not_le.mpr short)]
    change message.length - 4 < 8 at short
    exact .inl ⟨rfl, .inl (by omega)⟩
  rw [if_pos (not_lt.mp short), Message.shift_neg _ (not_lt.mp short), Option.map_some]
  dsimp only
  change ¬ message.length - 4 < 8 at short
  by_cases magic : message.memory.load (message.bytes + Control.HEADER_SIZE) 32 = Control.Pong_MAGIC
  · rw [if_neg (not_not.mpr magic)]
    refine .inr ⟨_, _, rfl, ?_, by omega, magic⟩
    push_cast
    omega
  · rw [if_pos magic]
    exact .inl ⟨rfl, .inr magic⟩

/-- The pinger gets what is behind the headers of the ping that an error quotes; the length of the
error is asserted. -/
theorem receiveMessage_error (delivered : Delivered message switchHeader)
    (isError : Control.type_be message.memory message.bytes = Control.ERROR_be) :
    SwitchPinger.receiveMessage (headed message) = none ∧ message.length < 32 ∨
      ∃ incoming data,
        SwitchPinger.receiveMessage (headed message) = some (.pongReceived incoming data) ∧
          data.bytes = message.bytes + 32 ∧ 32 ≤ message.length := by
  rcases delivered with ⟨rfl, padded, control, -⟩
  have isControl : ¬ Headers.getMessageType (headed message).memory (headed message).bytes ≠
      Headers.SwitchHeader_TYPE_CONTROL := not_not.mpr control
  have notPong : Control.type_be message.memory message.bytes ≠ Control.PONG_be := by
    rw [isError]
    decide
  rw [SwitchPinger.receiveMessage, if_neg isControl, shift_headed padded, Option.bind_some,
    if_neg notPong, if_pos isError]
  by_cases short : message.length < 32
  · have fails : message.shift (-SwitchPinger.quotedHeaders) = none := by
      rw [Message.shift, if_neg (by decide), if_neg (by push_cast; omega)]
    rw [fails]
    exact .inl ⟨rfl, short⟩
  · have enough : SwitchPinger.quotedHeaders ≤ message.length := not_lt.mp short
    rw [Message.shift_neg message enough, Option.map_some]
    exact .inr ⟨_, _, rfl, rfl, enough⟩

/-- Only what is passed on to the pinger is delivered. -/
theorem delivered_of_silent (pings : Pinger.Pings) {effects : List Effect}
    (silent : Silent effects) (last : List Effect) :
    ((effects ++ last).mapM (deliver pings)).map List.reduceOption =
        (last.mapM (deliver pings)).map List.reduceOption ∧
      (effects ++ last).flatMap deliverReads = last.flatMap deliverReads := by
  induction effects with
  | nil => exact ⟨rfl, rfl⟩
  | cons effect effects ih =>
      rcases ih (fun other inside => silent other (List.mem_cons_of_mem _ inside)) with
        ⟨slots, reads⟩
      have quiet := silent effect List.mem_cons_self
      have nothing : deliver pings effect = some none ∧ deliverReads effect = [] := by
        cases effect with
        | toPinger message => exact absurd rfl (quiet message)
        | brokenPath label => exact ⟨rfl, rfl⟩
        | toSwitch message => exact ⟨rfl, rfl⟩
        | toSession session sendHandle_be message => exact ⟨rfl, rfl⟩
      rw [List.cons_append, List.flatMap_cons, nothing.2, List.nil_append, List.mapM_cons,
        nothing.1, ← slots]
      refine ⟨?_, reads⟩
      cases (effects ++ last).mapM (deliver pings) <;> rfl

theorem packet_of_passedOn (pings : Pinger.Pings) (delivered : Delivered message switchHeader)
    (passes : PassedOn context message (Headers.label message.memory switchHeader)) :
    handlePacket context pings message switchHeader =
        (SwitchPinger.receiveMessage (headed message)).map
          (fun received => (SwitchPinger.completes pings received).toList) ∧
      packetReads context message switchHeader =
        controlReads message ++ SwitchPinger.reads (headed message) := by
  rcases handled delivered with ⟨-, err, left, before, silent, handles⟩ | ⟨notPassed, -⟩
  · rw [handlePacket, packetReads, handles, Option.bind_some]
    dsimp only
    rcases delivered_of_silent pings silent [.toPinger (headed message)] with
      ⟨slots, reads⟩
    rw [slots, reads, List.mapM_cons, List.mapM_nil, List.flatMap_singleton]
    refine ⟨?_, rfl⟩
    cases received : SwitchPinger.receiveMessage (headed message) with
    | none => simp [deliver, received]
    | some result =>
        simp only [deliver, received, Option.map_some]
        cases SwitchPinger.completes pings result <;> rfl
  · exact absurd passes notPassed

theorem packet_of_not_passedOn (pings : Pinger.Pings) (delivered : Delivered message switchHeader)
    (notPassed : ¬ PassedOn context message (Headers.label message.memory switchHeader)) :
    handlePacket context pings message switchHeader = some [] ∧
      packetReads context message switchHeader = controlReads message := by
  rcases handled delivered with ⟨passes, -⟩ | ⟨-, err, left, effects, silent, handles⟩
  · exact absurd passes notPassed
  · rw [handlePacket, packetReads, handles, Option.bind_some]
    dsimp only
    rcases delivered_of_silent pings silent [] with ⟨slots, reads⟩
    rw [List.append_nil] at slots reads
    rw [slots, reads, List.flatMap_nil, List.append_nil]
    exact ⟨rfl, rfl⟩

/-- A packet that is passed on is at least as long as a header. -/
theorem PassedOn.long {label : BitVec 64} (passes : PassedOn context message label) :
    Control.HEADER_SIZE ≤ message.length := by
  rcases passes.2 with ⟨-, long, -⟩ | ⟨-, long⟩
  · change 16 ≤ message.length at long
    change 4 ≤ message.length
    omega
  · exact long

theorem survives_of_invalid_iff (delivered : Delivered message switchHeader)
    (passes : PassedOn context message (Headers.label message.memory switchHeader))
    (received : SwitchPinger.receiveMessage (headed message) = some .invalid) :
    Survives context pings message switchHeader ↔
      ∀ span ∈ controlReads message, span.Within message := by
  rcases packet_of_passedOn pings delivered passes with ⟨slots, reads⟩
  rw [received, Option.map_some] at slots
  rw [SwitchPinger.reads, received, List.append_nil] at reads
  constructor
  · intro survives span inside
    refine survives.reads span ?_
    rw [reads]
    exact List.mem_append_left _ inside
  · refine fun within => ⟨by rw [slots]; rfl, fun span inside => ?_, fun other same some => ?_⟩
    · rw [reads] at inside
      rcases List.mem_append.mp inside with inside | inside
      · exact within span inside
      · exact receiveReads_within passes.long inside
    · rw [slots, Option.some.injEq] at same
      exact absurd same.symm some

theorem survives_of_pongReceived_iff (delivered : Delivered message switchHeader)
    (passes : PassedOn context message (Headers.label message.memory switchHeader))
    {incoming : SwitchPinger.Incoming} {data : Message}
    (received : SwitchPinger.receiveMessage (headed message) = some (.pongReceived incoming data))
    (place : data.bytes + dataLength message = message.bytes + message.length) :
    Survives context pings message switchHeader ↔
      (∀ span ∈ controlReads message, span.Within message) ∧ 4 ≤ dataLength message := by
  rcases packet_of_passedOn pings delivered passes with ⟨slots, reads⟩
  rw [received, Option.map_some] at slots
  rw [SwitchPinger.reads, received] at reads
  constructor
  · intro survives
    constructor
    · intro span inside
      refine survives.reads span ?_
      rw [reads]
      exact List.mem_append_left _ inside
    · have slot : Span.Within message { place := data.bytes, size := 4 } := by
        refine survives.reads _ ?_
        rw [reads]
        exact List.mem_append_right _ (List.mem_append_right _ List.mem_cons_self)
      rw [Span.Within] at slot
      push_cast at slot
      omega
  · rintro ⟨within, enough⟩
    refine ⟨by rw [slots]; rfl, fun span inside => ?_, fun _ _ _ => enough⟩
    rw [reads] at inside
    rcases List.mem_append.mp inside with inside | inside
    · exact within span inside
    rcases List.mem_append.mp inside with inside | inside
    · exact receiveReads_within passes.long inside
    · rw [List.mem_singleton.mp inside, Span.Within]
      push_cast
      omega

/-- A control packet with a correct checksum survives the three modules exactly if it is not a
runt. -/
theorem survives_iff (delivered : Delivered message switchHeader) :
    Survives context pings message switchHeader ↔
      ¬ Runt context message (Headers.label message.memory switchHeader) := by
  have notError : Control.PONG_be ≠ Control.ERROR_be := by decide
  by_cases passes : PassedOn context message (Headers.label message.memory switchHeader)
  · rcases passes.2 with ⟨isError, long, passed⟩ | ⟨isPong, long⟩
    · have notPong : Control.type_be message.memory message.bytes ≠ Control.PONG_be :=
        fun isPong => notError (isPong.symm.trans isError)
      have runt_iff : Runt context message (Headers.label message.memory switchHeader) ↔
          RuntCause message ∨ message.length < 36 := by
        simp only [Runt, isError, long, passed, passes.1, notError.symm, true_and, false_and,
          or_false]
        exact Iff.rfl
      have within_iff := controlReads_within_iff delivered.valid
      rw [runt_iff, not_or, not_lt]
      simp only [isError, long, true_and] at within_iff
      rcases receiveMessage_error delivered isError with ⟨fails, short⟩ | ⟨_, _, received, place, -⟩
      · refine iff_of_false (fun survives => ?_) fun holds => by omega
        have asserts := survives.asserts
        rw [(packet_of_passedOn pings delivered passes).1, fails] at asserts
        cases asserts
      · have data : dataLength message = (message.length : ℤ) - 32 := if_neg notPong
        rw [survives_of_pongReceived_iff delivered passes received (by rw [data]; omega),
          within_iff, data]
        refine and_congr_right fun _ => ?_
        omega
    · have isNot : Control.type_be message.memory message.bytes ≠ Control.ERROR_be :=
        fun isError => notError (isPong.symm.trans isError)
      have runt_iff : Runt context message (Headers.label message.memory switchHeader) ↔
          12 ≤ message.length ∧ message.length < 16 ∧
            message.memory.load (message.bytes + Control.HEADER_SIZE) 32 = Control.Pong_MAGIC := by
        simp only [Runt, isPong, passes.1, notError, true_and, false_and, false_or]
        exact Iff.rfl
      have within : ∀ span ∈ controlReads message, span.Within message :=
        (controlReads_within_iff delivered.valid).mpr fun holds => isNot holds.1
      rw [runt_iff]
      rcases receiveMessage_pong delivered long isPong with
        ⟨received, invalid⟩ | ⟨_, _, received, place, enough, magic⟩
      · rw [survives_of_invalid_iff delivered passes received]
        refine iff_of_true within fun ⟨enough, _, magic⟩ => ?_
        rcases invalid with short | other
        · omega
        · exact other magic
      · have data : dataLength message = (message.length : ℤ) - 12 := if_pos isPong
        rw [survives_of_pongReceived_iff delivered passes received (by rw [data]; omega), data]
        refine (and_iff_right within).trans ⟨fun fits ⟨_, short, _⟩ => by omega, fun holds => ?_⟩
        by_contra short
        exact holds ⟨enough, by omega, magic⟩
  · rcases packet_of_not_passedOn pings delivered passes with ⟨slots, reads⟩
    have survives_iff_within : Survives context pings message switchHeader ↔
        ∀ span ∈ controlReads message, span.Within message := by
      rw [← reads]
      refine ⟨Survives.reads, fun within => ⟨by rw [slots]; rfl, within, fun other same some => ?_⟩⟩
      rw [slots, Option.some.injEq] at same
      exact absurd same.symm some
    rw [survives_iff_within, controlReads_within_iff delivered.valid, not_iff_not, Runt]
    constructor
    · rintro ⟨isError, long, runt⟩
      exact .inl ⟨isError, long, .inl runt⟩
    · rintro (⟨isError, long, runt | ⟨passed, pinger, -⟩⟩ | ⟨isPong, pinger, long, -⟩)
      · exact ⟨isError, long, runt⟩
      · exact absurd ⟨pinger, .inl ⟨isError, long, passed⟩⟩ passes
      · change 12 ≤ message.length at long
        exact absurd ⟨pinger, .inr ⟨isPong, le_trans (by decide) long⟩⟩ passes

/-! ## Packets -/

/-- A control packet behind its switch header -/
def controlPacket (content : List (BitVec 8)) : Message where
  memory := Memory.write (fun _ => 0) (-12) ([0, 0, 0, 0, 0, 0, 0, 0, 1, 0, 0, 0] ++ content)
  length := content.length
  padding := 12
  bytes := 0

/-- A node with a switch pinger and without sessions -/
def withPinger : SwitchLayer where
  hasPinger := true
  sessionForHandle _ := none
  getSession _ _ := 0
  addressForPublicKey _ := []

/-- A pong with the data of the ping in the first slot -/
def pong : Message :=
  controlPacket [0x7f, 0x29, 0, 4, 0x9d, 0x74, 0xe3, 0x5b, 0, 0, 0, 2, 0, 0, 0, 0]

theorem survives_pong : Survives withPinger (fun _ => true) pong (-12) := by
  have delivered : Delivered pong (-12) :=
    ⟨by decide, by decide, by decide +kernel, by decide +kernel⟩
  refine (survives_iff delivered).mpr ?_
  rintro (⟨isError, -⟩ | ⟨-, -, -, short, -⟩)
  · revert isError
    decide +kernel
  · revert short
    decide

/-- An error that quotes the headers of a ping and nothing of the ping -/
def errorWithRuntPing : Message :=
  controlPacket
    [0xfe, 0xf9, 0, 2, 0, 0, 0, 1, 0, 0, 0, 0, 0, 0, 0, 0, 1, 0, 0, 0, 0, 0, 0, 3]

/-- An assertion of the switch pinger fails for an error that is long enough for
`handleControlMessage`. -/
theorem asserts_runtPing : Delivered errorWithRuntPing (-12) ∧
    ¬ Survives withPinger (fun _ => false) errorWithRuntPing (-12) := by
  refine ⟨⟨by decide, by decide, by decide +kernel, by decide +kernel⟩, fun survives => ?_⟩
  have asserts := survives.asserts
  revert asserts
  decide +kernel

end Ducttape

end Cjdns
