import Cjdns.Interface.PipeHandshake
import Cjdns.Library.PrefixCode

/-!
# Two interfaces with pipes between them

The bytes of two interfaces on their way to each other. They are read in whatever parts they come,
only that an interface that is initializing forgets the rest of a frame that has not come whole.
Where this does not happen, the bytes do what the frames in them do.
-/

namespace Cjdns.PipeInterface

variable {receiver : Receiver} {pipe : PipeInterface} {peer : Peer} {sent : Sent}
  {bytes rest later : List (BitVec 8)}

/-! ## The bytes of frames -/

/-- What an action writes to the pipe -/
def Action.written : Action → List (BitVec 8)
  | .sendEmpty type syncMagic => (header syncMagic type 0).read 0 SIZE
  | _ => []

/-- What is written to the pipe -/
def written (actions : List Action) : List (BitVec 8) :=
  actions.flatMap (·.written)

@[simp]
theorem written_append (first second : List Action) :
    written (first ++ second) = written first ++ written second :=
  List.flatMap_append

@[simp]
theorem payloads_append (first second : List Action) :
    payloads (first ++ second) = payloads first ++ payloads second :=
  List.filterMap_append

theorem written_ping (syncMagic : BitVec 64) :
    written [.sendEmpty PING syncMagic] = (Sent.mk syncMagic aPing).bytes := by
  rw [written, List.flatMap_singleton, Sent.bytes, Frame.bytes]
  exact (List.append_nil _).symm

theorem written_pong (syncMagic : BitVec 64) :
    written [.sendEmpty PONG syncMagic] = (Sent.mk syncMagic aPong).bytes := by
  rw [written, List.flatMap_singleton, Sent.bytes, Frame.bytes]
  exact (List.append_nil _).symm

theorem Sent.length_bytes (sent : Sent) :
    sent.bytes.length = SIZE + sent.frame.payload.length :=
  Frame.length_bytes _ _

/-- The header of a frame is read back. -/
theorem header_injective {magic other : BitVec 64} {type kind length count : BitVec 32}
    (same : (header magic type length).read 0 SIZE = (header other kind count).read 0 SIZE) :
    magic = other ∧ type = kind ∧ length = count := by
  have first := @header_of_read { established with message := header magic type length } _ _ _ rfl
  have second := @header_of_read { established with message := header magic type length } _ _ _ same
  exact ⟨first.1.symm.trans second.1, first.2.1.symm.trans second.2.1,
    first.2.2.symm.trans second.2.2⟩

/-- Where a frame ends is written in it. -/
theorem isPrefixCode_bytes : IsPrefixCode Sent.bytes where
  ne_nil sent := by
    apply List.ne_nil_of_length_pos
    rw [sent.length_bytes]
    exact Nat.lt_add_right _ (Nat.zero_lt_succ _)
  unique := by
    rintro ⟨magic, type, payload, known, short⟩ ⟨other, kind, content, certain, brief⟩ rest
      further same
    have size : SIZE = 16 := rfl
    have most : MAX_MESSAGE_SIZE = 65535 := rfl
    simp only [Sent.bytes, Frame.bytes, List.append_assoc] at same
    rcases List.append_inj same (by simp) with ⟨headers, behind⟩
    rcases header_injective headers with ⟨rfl, rfl, lengths⟩
    have equal : payload.length = content.length := by
      have numbers := congrArg BitVec.toNat lengths
      rw [BitVec.toNat_ofNat, BitVec.toNat_ofNat, Nat.mod_eq_of_lt (by omega),
        Nat.mod_eq_of_lt (by omega)] at numbers
      exact numbers
    rcases List.append_inj behind equal with ⟨rfl, -⟩
    rfl

/-! ## One frame -/

/-- The interface is at this point of the handshake, and has these bytes in its buffer. -/
structure Mirrors (pipe : PipeInterface) (peer : Peer) (bytes : List (BitVec 8)) : Prop where
  state : pipe.state = if peer.established then .ESTABLISHED else .INITIALIZING
  syncMagic : pipe.syncMagic = peer.magic
  buffer : pipe.message.read 0 pipe.messageReceived.toNat = bytes

theorem Mirrors.length (mirrors : pipe.Mirrors peer bytes) :
    pipe.messageReceived.toNat = bytes.length := by
  rw [← mirrors.buffer, Memory.length_read]

/-- What is in the header of a frame that has begun to come -/
theorem Mirrors.header (mirrors : pipe.Mirrors peer bytes) (long : SIZE ≤ bytes.length)
    (starts : bytes.take SIZE = sent.bytes.take SIZE) :
    pipe.headerMagic = sent.magic ∧ pipe.headerType = sent.frame.type ∧
      pipe.headerLength = BitVec.ofNat 32 sent.frame.payload.length := by
  apply header_of_read
  rw [← Memory.take_read _ _ (mirrors.length.symm ▸ long), mirrors.buffer, starts, Sent.bytes,
    Frame.bytes, List.take_left' (Memory.length_read _ _ _)]

theorem frameLength_of_header (length : pipe.headerLength =
    BitVec.ofNat 32 sent.frame.payload.length) :
    pipe.frameLength.toNat = sent.bytes.length := by
  have size : SIZE = 16 := rfl
  have most : MAX_MESSAGE_SIZE = 65535 := rfl
  have short := sent.frame.short
  rw [frameLength, length, sent.length_bytes, BitVec.toNat_add, BitVec.toNat_ofNat,
    BitVec.toNat_ofNat]
  omega

/-- The comparison of the magic, for a frame that the handshake can bring -/
theorem synchronize_spec (mirrors : pipe.Mirrors peer bytes)
    (magic : pipe.headerMagic = sent.magic)
    (fine : peer.established = true → sent.magic = peer.magic) :
    pipe.synchronize.again = true ∧ pipe.synchronize.pipe.Mirrors (peer.takes sent) bytes ∧
      pipe.synchronize.pipe.message = pipe.message ∧
      payloads pipe.synchronize.actions = [] ∧ written pipe.synchronize.actions = [] := by
  have state := mirrors.state
  have syncMagic := mirrors.syncMagic
  rw [synchronize]
  by_cases same : sent.magic = peer.magic
  · rw [Peer.takes_of_eq same, if_neg (by rw [magic, same, syncMagic]; simp)]
    split_ifs with starting waiting
    · exact ⟨rfl, ⟨rfl, syncMagic, mirrors.buffer⟩, rfl, rfl, rfl⟩
    all_goals
      have established : pipe.state = .ESTABLISHED := by
        cases already : peer.established
        · rw [already] at state
          exact absurd state starting
        · rw [already] at state
          exact state
      exact ⟨rfl, ⟨established, syncMagic, mirrors.buffer⟩, rfl, rfl, rfl⟩
  · have starting : peer.established = false := by
      rw [← Bool.not_eq_true]
      exact fun established => same (fine established)
    rw [starting] at state
    rw [if_pos (by rwa [magic, syncMagic]), if_pos (by simpa using state), magic]
    by_cases less : sent.magic < peer.magic
    · rw [if_pos (by rwa [syncMagic]), Peer.takes_of_lt less starting]
      exact ⟨rfl, ⟨by simpa [starting] using state, rfl, mirrors.buffer⟩, rfl, rfl, rfl⟩
    · rw [if_neg (by rwa [syncMagic]), Peer.takes, if_neg (by simp [starting]), if_neg less,
        if_neg same]
      exact ⟨rfl, mirrors, rfl, rfl, rfl⟩

/-- What is done with a message does not depend on the state or the magic. -/
theorem give_congr {other : PipeInterface} (message : other.message = pipe.message)
    (delivered : other.delivered = pipe.delivered) (length : BitVec 32) :
    (pipe.give receiver length).message = (other.give receiver length).message ∧
      payloads (pipe.give receiver length).actions =
        payloads (other.give receiver length).actions := by
  have type : other.headerType = pipe.headerType := by
    rw [headerType, headerType, message]
  rw [give, give, type]
  split_ifs with ping data
  · exact ⟨message.symm, rfl⟩
  · cases receiver with
    | none => exact ⟨message.symm, rfl⟩
    | some overwrites =>
        rw [handleData, handleData, message, delivered]
        exact ⟨rfl, rfl⟩
  · exact ⟨message.symm, rfl⟩

theorem written_give (known : pipe.headerType = sent.frame.type) (length : BitVec 32) :
    written (pipe.give receiver length).actions =
      if sent.frame.type = PING then (Sent.mk pipe.syncMagic aPong).bytes else [] := by
  rw [give, known]
  split_ifs with ping data
  · exact written_pong _
  · cases receiver <;> rfl
  · rfl

/-- A frame that has come whole is handed on or answered, and the rest is moved to the start. -/
theorem handleFrame_whole (overwrites : ℕ → Memory)
    (buffer : pipe.message.read 0 pipe.messageReceived.toNat = sent.bytes ++ rest)
    (type : pipe.headerType = sent.frame.type)
    (length : pipe.frameLength.toNat = sent.bytes.length) :
    ((pipe.handleFrame (some overwrites)).again = true ↔ rest ≠ []) ∧
      (pipe.handleFrame (some overwrites)).pipe.state = pipe.state ∧
      (pipe.handleFrame (some overwrites)).pipe.syncMagic = pipe.syncMagic ∧
      (pipe.handleFrame (some overwrites)).pipe.message.read 0
        (pipe.handleFrame (some overwrites)).pipe.messageReceived.toNat = rest ∧
      payloads (pipe.handleFrame (some overwrites)).actions = dataOf [sent] ∧
      written (pipe.handleFrame (some overwrites)).actions =
        if sent.frame.type = PING then (Sent.mk pipe.syncMagic aPong).bytes else [] := by
  -- What is done with the message is known for an interface that is established.
  have running : PipeInterface.Running
      { pipe with state := .ESTABLISHED, syncMagic := sent.magic } sent.magic
      (sent.bytes ++ rest) := ⟨rfl, rfl, buffer⟩
  rcases give_spec overwrites running type length with ⟨answers, behind⟩
  rcases @give_congr (some overwrites) pipe
    { pipe with state := .ESTABLISHED, syncMagic := sent.magic } rfl rfl pipe.frameLength with
    ⟨message, handed⟩
  have data : dataOf [sent] = ([sent.frame].filter (·.type = DATA)).map (·.payload) := by
    simp only [dataOf, List.filter_cons, List.filter_nil]
    split_ifs <;> rfl
  have handed := handed.trans (answers.payloads.trans data.symm)
  have kept (place : ℤ) (above : pipe.frameLength.toNat ≤ place) :
      (pipe.give (some overwrites) pipe.frameLength).message place = pipe.message place := by
    rw [message]
    exact behind place above
  have put := @written_give (some overwrites) pipe sent type pipe.frameLength
  have total : pipe.messageReceived.toNat = pipe.frameLength.toNat + rest.length := by
    rw [← Memory.length_read pipe.message 0 pipe.messageReceived.toNat, buffer,
      List.length_append, length]
  have fits : ¬pipe.messageReceived < pipe.frameLength := by
    rw [BitVec.lt_def]
    omega
  have remaining : (pipe.messageReceived - pipe.frameLength).toNat = rest.length := by
    rw [BitVec.toNat_sub_of_le (BitVec.not_lt.mp fits)]
    omega
  have left : (pipe.give (some overwrites) pipe.frameLength).message.read
      (0 + pipe.frameLength.toNat) rest.length = rest := by
    rw [total, Memory.read_add] at buffer
    rw [Memory.read_congr fun place lower _ => kept place (by omega)]
    exact (List.append_inj buffer (by rw [Memory.length_read, length])).2
  rw [handleFrame, dif_neg fits]
  dsimp only
  by_cases none : rest = []
  · have zero : pipe.messageReceived - pipe.frameLength = 0 :=
      BitVec.eq_of_toNat_eq (by rw [remaining, none]; rfl)
    rw [if_neg (not_not.mpr zero)]
    refine ⟨by simp [none], rfl, rfl, ?_, handed, put⟩
    dsimp only
    rw [zero, none]
    rfl
  · have some : pipe.messageReceived - pipe.frameLength ≠ 0 := fun zero => by
      rw [zero] at remaining
      exact none (List.length_eq_zero_iff.mp remaining.symm)
    rw [if_pos some]
    refine ⟨by simp [none], rfl, rfl, ?_, ?_, ?_⟩
    · dsimp only
      rw [remaining, read_memmove _ le_rfl (by omega), left]
    · dsimp only
      rw [payloads_append, handed]
      exact List.append_nil _
    · dsimp only
      rw [written_append, put]
      exact List.append_nil _

/-- A frame that has come whole does what it does in the handshake. -/
theorem handleMessage_whole (overwrites : ℕ → Memory)
    (mirrors : pipe.Mirrors peer (sent.bytes ++ rest))
    (fine : peer.established = true → sent.magic = peer.magic) :
    ((pipe.handleMessage (some overwrites)).again = true ↔ rest ≠ []) ∧
      (pipe.handleMessage (some overwrites)).pipe.Mirrors (peer.takes sent) rest ∧
      payloads (pipe.handleMessage (some overwrites)).actions = dataOf [sent] ∧
      written (pipe.handleMessage (some overwrites)).actions =
        (peer.answers sent).flatMap (·.bytes) := by
  have longer : SIZE ≤ (sent.bytes ++ rest).length := by
    rw [List.length_append, sent.length_bytes]
    omega
  have starts : (sent.bytes ++ rest).take SIZE = sent.bytes.take SIZE :=
    List.take_append_of_le_length (by rw [sent.length_bytes]; omega)
  have enough : ¬pipe.messageReceived < BitVec.ofNat 32 SIZE := by
    rw [BitVec.lt_def, mirrors.length]
    exact not_lt.mpr longer
  rcases mirrors.header longer starts with ⟨magic, type, -⟩
  rcases synchronize_spec mirrors magic fine with ⟨again, still, same, silent, quiet⟩
  rcases still.header longer starts with ⟨-, kind, length⟩
  rcases handleFrame_whole overwrites still.buffer kind (frameLength_of_header length) with
    ⟨more, state, syncMagic, buffer, handed, put⟩
  have starting : (pipe.state = .INITIALIZING ∧ pipe.headerType = PONG) ↔
      (peer.established = false ∧ sent.frame.type = PONG) := by
    rw [type, mirrors.state]
    cases peer.established <;> simp
  have greeting : written (if pipe.state = .INITIALIZING ∧ pipe.headerType = PONG then
      [.sendEmpty PING pipe.syncMagic] else []) = (peer.greeting sent).flatMap (·.bytes) := by
    simp only [starting, Peer.greeting, mirrors.syncMagic]
    split_ifs
    · rw [written_ping, List.flatMap_singleton]
    · rfl
  have nothing : payloads (if pipe.state = .INITIALIZING ∧ pipe.headerType = PONG then
      [.sendEmpty PING pipe.syncMagic] else []) = [] := by
    split_ifs <;> rfl
  simp only [handleMessage, if_neg enough, again, if_true]
  refine ⟨more, ⟨state.trans still.state, syncMagic.trans still.syncMagic, buffer⟩, ?_, ?_⟩
  · rw [payloads_append, payloads_append, nothing, silent, handed]
    rfl
  · rw [written_append, written_append, greeting, quiet, put, Peer.answers, List.flatMap_append,
      List.append_nil, Peer.answer, still.syncMagic]
    split_ifs
    · rw [List.flatMap_singleton]
    · rfl

/-- A header that has not come whole is left where it is. -/
theorem handleMessage_short (receiver : Receiver) (mirrors : pipe.Mirrors peer bytes)
    (short : bytes.length < SIZE) : pipe.handleMessage receiver = ⟨false, pipe, []⟩ := by
  have runt : pipe.messageReceived < BitVec.ofNat 32 SIZE := by
    rw [BitVec.lt_def, mirrors.length]
    exact short
  rw [handleMessage, if_pos runt]

/-- So is a frame that has not come whole, once the interface is established. -/
theorem handleMessage_incomplete (receiver : Receiver) (mirrors : pipe.Mirrors peer bytes)
    (established : peer.established = true) (same : sent.magic = peer.magic)
    (starts : SIZE ≤ bytes.length → bytes.take SIZE = sent.bytes.take SIZE)
    (incomplete : bytes.length < sent.bytes.length) :
    (pipe.handleMessage receiver).again = false ∧
      (pipe.handleMessage receiver).pipe.Mirrors peer bytes ∧
      payloads (pipe.handleMessage receiver).actions = [] ∧
      written (pipe.handleMessage receiver).actions = [] := by
  by_cases short : bytes.length < SIZE
  · rw [handleMessage_short receiver mirrors short]
    exact ⟨rfl, mirrors, rfl, rfl⟩
  have long := not_lt.mp short
  have enough : ¬pipe.messageReceived < BitVec.ofNat 32 SIZE := by
    rw [BitVec.lt_def, mirrors.length]
    exact short
  rcases mirrors.header long (starts long) with ⟨magic, -, -⟩
  rcases synchronize_spec mirrors magic fun _ => same with ⟨again, still, -, silent, quiet⟩
  rw [Peer.takes_of_established established] at still
  rcases still.header long (starts long) with ⟨-, -, length⟩
  have runt : pipe.synchronize.pipe.messageReceived < pipe.synchronize.pipe.frameLength := by
    rw [BitVec.lt_def, still.length, frameLength_of_header length]
    exact incomplete
  have running : pipe.state ≠ .INITIALIZING := by
    rw [mirrors.state, if_pos established]
    decide
  have dropped : pipe.synchronize.pipe.handleFrame receiver =
      ⟨false, pipe.synchronize.pipe, []⟩ := by
    rw [handleFrame, dif_pos runt]
  simp only [handleMessage, if_neg enough, again, if_true, dropped, running, false_and, if_false,
    List.nil_append, List.append_nil]
  exact ⟨trivial, still, silent, quiet⟩

/-! ## Two interfaces -/

variable (pipe) in
/-- How many bytes `doRead` asks for -/
def room : ℕ :=
  if pipe.state = .LOST then MAX_MESSAGE_SIZE else MAX_MESSAGE_SIZE - pipe.messageReceived.toNat

variable (pipe) in
/-- `PipeInterface_waitUntilReady` -/
def waitUntilReady : PipeInterface :=
  if pipe.state = .INITIALIZING then { pipe with isWaiting := true } else pipe

/-- `PipeInterface_new`, up to the ping -/
def new (syncMagic : BitVec 64) : PipeInterface where
  state := .INITIALIZING
  syncMagic := syncMagic
  message _ := 0
  messageReceived := 0
  isWaiting := false
  delivered := 0
  bounded := Nat.zero_le _

/-- Two interfaces, the bytes on their way to each of them, and the messages that each of them has
sent and handed on -/
structure Connection where
  pipe : Side → PipeInterface
  incoming : Side → List (BitVec 8)
  said : Side → List (List (BitVec 8))
  heard : Side → List (List (BitVec 8))

namespace Connection

/-- What happens to an interface -/
inductive Event where
  /-- `handleEvent`, with so many bytes in the pipe -/
  | handleEvent (side : Side) (count : ℕ)
  /-- `handleTimeout`, where it comes to a ping -/
  | handleTimeout (side : Side)
  | sendMessage (side : Side) (message : List (BitVec 8))
  | waitUntilReady (side : Side)

variable (connection : Connection)

/-- `write`, of all the bytes -/
def write (side : Side) (bytes : List (BitVec 8)) : Connection :=
  { connection with
    incoming := Function.update connection.incoming side.other
      (connection.incoming side.other ++ bytes) }

/-- The interface after `handleEvent`, and what this took from the one pipe and wrote to the
other one -/
def handled (side : Side) (count : ℕ) (reader : PipeInterface) (actions : List Action) :
    Connection where
  pipe := Function.update connection.pipe side reader
  incoming := Function.update
    (Function.update connection.incoming side
      ((connection.incoming side).drop (min count (connection.pipe side).room)))
    side.other (connection.incoming side.other ++ written actions)
  said := connection.said
  heard := Function.update connection.heard side (connection.heard side ++ payloads actions)

/-- A step; a message is not sent by an interface that is initializing. -/
inductive Step (overwrites : Side → ℕ → Memory) : Connection → Event → Connection → Prop where
  | handleEvent {connection : Connection} {side : Side} {count fuel : ℕ} {reader : PipeInterface}
      {actions : List Action}
      (reads : (connection.pipe side).handleEvent (some (overwrites side)) fuel
        ((connection.incoming side).take count) = some (reader, actions)) :
      Step overwrites connection (.handleEvent side count)
        (connection.handled side count reader actions)
  | handleTimeout {connection : Connection} (side : Side) :
      Step overwrites connection (.handleTimeout side)
        (connection.write side (written [.sendEmpty PING (connection.pipe side).syncMagic]))
  | sendMessage {connection : Connection} {side : Side} {message bytes : List (BitVec 8)}
      (sends : (connection.pipe side).sendMessage message = some bytes) :
      Step overwrites connection (.sendMessage side message)
        { connection.write side bytes with
          said := Function.update connection.said side (connection.said side ++ [message]) }
  | undeliverable {connection : Connection} {side : Side} {message : List (BitVec 8)}
      (refuses : (connection.pipe side).sendMessage message = none) :
      Step overwrites connection (.sendMessage side message) connection
  | waitUntilReady {connection : Connection} (side : Side) :
      Step overwrites connection (.waitUntilReady side)
        { connection with
          pipe := Function.update connection.pipe side (connection.pipe side).waitUntilReady }

/-- Two new interfaces -/
def start (magic : Side → BitVec 64) : Connection where
  pipe side := new (magic side)
  incoming side := written [.sendEmpty PING (magic side.other)]
  said _ := []
  heard _ := []

/-- The connections of two interfaces that begin with these magics -/
def connections (magic : Side → BitVec 64) (overwrites : Side → ℕ → Memory) :
    TransitionSystem Connection Event where
  initial connection := connection = start magic
  step := Step overwrites

/-- While an interface is initializing, what it reads are whole frames. No message is longer than
what the buffer of the reader has room for. -/
def Orderly : Connection → Event → Prop
  | connection, .handleEvent side count =>
      (connection.pipe side).state = .INITIALIZING →
        ∃ frames : List Sent, (connection.incoming side).take
          (min count (connection.pipe side).room) = frames.flatMap (·.bytes)
  | _, .sendMessage _ message => message.length ≤ MAX_MESSAGE_SIZE - SIZE
  | _, _ => True

/-- What is not in a buffer yet is on its way. -/
structure EndMirrors (connection : Connection) (talk : Talk) (side : Side)
    (buffer : List (BitVec 8)) : Prop where
  mirrors : (connection.pipe side).Mirrors (talk.peer side) buffer
  stream : buffer ++ connection.incoming side = (talk.queue side).flatMap (·.bytes)
  starting : (talk.peer side).established = false → buffer = []
  incomplete : ∀ sent rest, talk.queue side = sent :: rest → buffer.length < sent.bytes.length

/-- The connection is this talk, in bytes. -/
structure Mirrors (connection : Connection) (talk : Talk) : Prop where
  ends : ∀ side, ∃ buffer, connection.EndMirrors talk side buffer
  said : connection.said = talk.said
  heard : connection.heard = talk.heard

/-! ## The loop -/

/-- What the loop comes to: the talk has gone on by the frames that had come whole. -/
structure Looped (talk next : Talk) (side : Side) (reader : PipeInterface) (actions : List Action)
    (buffer later : List (BitVec 8)) : Prop where
  mirrors : reader.Mirrors (next.peer side) buffer
  stream : buffer ++ later = (next.queue side).flatMap (·.bytes)
  incomplete : ∀ sent rest, next.queue side = sent :: rest → buffer.length < sent.bytes.length
  peer : next.peer side.other = talk.peer side.other
  queue : (next.queue side.other).flatMap (·.bytes) =
    (talk.queue side.other).flatMap (·.bytes) ++ written actions
  heard : next.heard side = talk.heard side ++ payloads actions
  others : next.heard side.other = talk.heard side.other
  said : next.said = talk.said
  lasting : (talk.peer side).established = true → (next.peer side).established = true

/-- A frame in front of what the rest of the loop comes to -/
theorem Looped.cons {talk next : Talk} {side : Side} {reader : PipeInterface}
    {first actions : List Action} {frames : List Sent} {buffer : List (BitVec 8)}
    (looped : Looped (talk.take side sent frames) next side reader actions buffer later)
    (handed : payloads first = dataOf [sent])
    (put : written first = ((talk.peer side).answers sent).flatMap (·.bytes)) :
    Looped talk next side reader (first ++ actions) buffer later where
  mirrors := looped.mirrors
  stream := looped.stream
  incomplete := looped.incomplete
  peer := looped.peer.trans Talk.peer_take_other
  queue := by
    rw [looped.queue, Talk.queue_take_other, written_append, put, List.flatMap_append,
      List.append_assoc]
  heard := by
    rw [looped.heard, Talk.heard_take_self, payloads_append, handed, List.append_assoc]
  others := looped.others.trans Talk.heard_take_other
  said := looped.said
  lasting established := looped.lasting (by
    rw [Talk.peer_take_self, Peer.takes_of_established established, established])

/-- The loop takes the frames that have come whole. -/
theorem handleLoop_mirrors (overwrites : ℕ → Memory) {magic : Side → BitVec 64} {talk : Talk}
    {side : Side} (reachable : (Talk.talks magic).Reachable (fun _ _ => True) talk)
    (mirrors : pipe.Mirrors (talk.peer side) bytes)
    (stream : bytes ++ later = (talk.queue side).flatMap (·.bytes))
    (whole : (talk.peer side).established = false →
      ∃ frames : List Sent, bytes = frames.flatMap (·.bytes)) :
    ∃ fuel reader actions next buffer,
      handleLoop (some overwrites) fuel pipe = some (reader, actions) ∧
        Relation.ReflTransGen ((Talk.talks magic).Steps fun _ _ => True) talk next ∧
        Looped talk next side reader actions buffer later ∧
        ((∃ frames : List Sent, bytes = frames.flatMap (·.bytes)) → buffer = []) := by
  generalize waiting : talk.queue side = queue at stream
  -- The frames that have not been taken are counted by the queue.
  induction queue generalizing talk pipe bytes with
  | nil =>
      rw [List.flatMap_nil, List.append_eq_nil_iff] at stream
      rcases stream with ⟨rfl, rfl⟩
      have nothing := handleMessage_short (some overwrites) mirrors (Nat.zero_lt_succ _)
      refine ⟨1, pipe, [], talk, [], ?_, .refl, ?_, fun _ => rfl⟩
      · simp only [handleLoop, nothing]
        rfl
      · exact ⟨mirrors, by rw [waiting]; rfl, by simp [waiting], rfl,
          (List.append_nil _).symm, (List.append_nil _).symm, rfl, rfl, id⟩
  | cons sent frames ih =>
      have sound := reachable.invariant (Talk.sound_isInvariant magic)
      have fine (established : (talk.peer side).established = true) :
          sent.magic = (talk.peer side).magic := by
        rw [sound.agreed side established side]
        exact sound.settled side established sent (waiting ▸ List.mem_cons_self)
      by_cases incomplete : bytes.length < sent.bytes.length
      · have stays : (∃ frames : List Sent, bytes = frames.flatMap (·.bytes)) → bytes = [] := by
          rintro ⟨_ | ⟨head, others⟩, rfl⟩
          · rfl
          · rcases isPrefixCode_bytes.split stream with ⟨behind, same, -⟩
            rw [List.cons_append, List.cons.injEq] at same
            rw [← same.1, List.flatMap_cons, List.length_append] at incomplete
            omega
        have handled : (pipe.handleMessage (some overwrites)).again = false ∧
            (pipe.handleMessage (some overwrites)).pipe.Mirrors (talk.peer side) bytes ∧
            payloads (pipe.handleMessage (some overwrites)).actions = [] ∧
            written (pipe.handleMessage (some overwrites)).actions = [] := by
          cases established : (talk.peer side).established
          · have none := stays (whole established)
            subst none
            rw [handleMessage_short (some overwrites) mirrors (Nat.zero_lt_succ _)]
            exact ⟨rfl, mirrors, rfl, rfl⟩
          · refine handleMessage_incomplete _ mirrors established (fine established) ?_ incomplete
            intro long
            have cut := congrArg (List.take SIZE) stream
            rwa [List.flatMap_cons, List.take_append_of_le_length long,
              List.take_append_of_le_length (long.trans incomplete.le)] at cut
        rcases handled with ⟨again, still, handed, put⟩
        refine ⟨1, (pipe.handleMessage (some overwrites)).pipe,
          (pipe.handleMessage (some overwrites)).actions, talk, bytes, ?_, .refl, ?_, stays⟩
        · simp only [handleLoop, again]
          rfl
        · refine ⟨still, by rw [stream, waiting], ?_, rfl, ?_, ?_, rfl, rfl, id⟩
          · intro head others same
            rw [waiting, List.cons.injEq] at same
            exact same.1 ▸ incomplete
          · rw [put, List.append_nil]
          · rw [handed, List.append_nil]
      · rw [List.flatMap_cons] at stream
        have front : sent.bytes = bytes.take sent.bytes.length := by
          have cut := congrArg (List.take sent.bytes.length) stream
          rw [List.take_append_of_le_length (not_lt.mp incomplete), List.take_left] at cut
          exact cut.symm
        rcases List.prefix_iff_eq_take.mpr front with ⟨rest, rfl⟩
        rw [List.append_assoc, List.append_cancel_left_eq] at stream
        rcases handleMessage_whole overwrites mirrors fine with ⟨again, still, handed, put⟩
        have step : (Talk.talks magic).Steps (fun _ _ => True) talk
            (talk.take side sent frames) := ⟨.take side, trivial, .take waiting⟩
        have behind (frames : List Sent) (same : sent.bytes ++ rest = frames.flatMap (·.bytes)) :
            ∃ others : List Sent, rest = others.flatMap (·.bytes) := by
          rcases frames with _ | ⟨head, others⟩
          · exact absurd (List.append_eq_nil_iff.mp same).1 (isPrefixCode_bytes.ne_nil sent)
          · rw [List.flatMap_cons] at same
            exact ⟨others, (isPrefixCode_bytes.cancel same).2⟩
        have wholes (starting : ((talk.take side sent frames).peer side).established = false) :
            ∃ others : List Sent, rest = others.flatMap (·.bytes) := by
          rw [Talk.peer_take_self, ← Bool.not_eq_true] at starting
          rcases whole (by
            rw [← Bool.not_eq_true]
            intro established
            exact starting (by rw [Peer.takes_of_established established, established])) with
            ⟨others, same⟩
          exact behind others same
        rw [← Talk.peer_take_self] at still
        by_cases none : rest = []
        · subst none
          have ends : ¬(pipe.handleMessage (some overwrites)).again = true := fun more =>
            again.mp more rfl
          refine ⟨1, (pipe.handleMessage (some overwrites)).pipe,
            (pipe.handleMessage (some overwrites)).actions, talk.take side sent frames, [], ?_,
            .single step, ?_, fun _ => rfl⟩
          · simp only [handleLoop, ends]
            rfl
          · rw [← List.append_nil (pipe.handleMessage (some overwrites)).actions]
            refine Looped.cons ⟨still, ?_, ?_, rfl, ?_, ?_, rfl, rfl, id⟩ handed put
            · rw [stream, Talk.queue_take_self]
            · intro head others _
              exact List.length_pos_of_ne_nil (isPrefixCode_bytes.ne_nil head)
            · exact (List.append_nil _).symm
            · exact (List.append_nil _).symm
        · rcases ih (reachable.step trivial (.take waiting)) still wholes Talk.queue_take_self
              stream with
            ⟨fuel, reader, actions, next, buffer, ends, run, looped, empty⟩
          refine ⟨fuel + 1, reader, (pipe.handleMessage (some overwrites)).actions ++ actions, next,
            buffer, ?_, .head step run, looped.cons handed put, ?_⟩
          · simp only [handleLoop, again.mpr none, if_true, ends]
            rfl
          · rintro ⟨others, same⟩
            exact empty (behind others same)

end Connection

end Cjdns.PipeInterface
