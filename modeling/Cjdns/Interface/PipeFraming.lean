import Cjdns.Interface.PipeInterface

/-!
# Frames in a pipe

However the bytes of some frames are cut into reads, the frames come out of the pipe as they went
in. Behind every read, the buffer holds the part of the next frame that has come so far.
-/

namespace Cjdns.PipeInterface

/-! ## Frames -/

/-- A frame of a known type that fits the buffer -/
structure Frame where
  type : BitVec 32
  payload : List (BitVec 8)
  known : type = PING ∨ type = PONG ∨ type = DATA
  short : payload.length ≤ MAX_MESSAGE_SIZE - SIZE

/-- `struct FramedMessage` -/
def header (syncMagic : BitVec 64) (type length : BitVec 32) : Memory :=
  ((Memory.store (fun _ => 0) 0 syncMagic).store 8 type).store 12 length

def Frame.bytes (syncMagic : BitVec 64) (frame : Frame) : List (BitVec 8) :=
  (header syncMagic frame.type (BitVec.ofNat 32 frame.payload.length)).read 0 SIZE ++ frame.payload

/-- `sendMessage`: what is written to the pipe -/
def sendMessage (message : List (BitVec 8)) (pipe : PipeInterface) : Option (List (BitVec 8)) :=
  if pipe.state = .INITIALIZING then none
  else some ((header pipe.syncMagic DATA (BitVec.ofNat 32 message.length)).read 0 SIZE ++ message)

variable {receiver : Receiver} {pipe : PipeInterface} {magic : BitVec 64} {frame : Frame}
  {bytes rest : List (BitVec 8)}

theorem Frame.length_bytes (magic : BitVec 64) (frame : Frame) :
    (frame.bytes magic).length = SIZE + frame.payload.length := by
  rw [Frame.bytes, List.length_append, Memory.length_read]

/-- A buffer that starts with the header of a frame -/
theorem header_of_read {type length : BitVec 32}
    (same : pipe.message.read 0 SIZE = (header magic type length).read 0 SIZE) :
    pipe.headerMagic = magic ∧ pipe.headerType = type ∧ pipe.headerLength = length := by
  refine ⟨?_, ?_, ?_⟩
  · rw [headerMagic, Memory.load_eq_of_read_eq SIZE same (by norm_num), header,
      Memory.load_store_disjoint _ (by norm_num), Memory.load_store_disjoint _ (by norm_num),
      Memory.load_store _ _ _ (by norm_num)]
  · have part := @Memory.read_eq_within _ _ _ _ _ 8 4 same (by norm_num)
    have loaded := @Memory.load_eq_of_read_eq 32 _ _ _ _ 4 part le_rfl
    rw [headerType, show (8 : ℤ) = 0 + (8 : ℕ) from rfl, loaded, header,
      Memory.load_store_disjoint _ (by norm_num)]
    exact Memory.load_store _ _ _ (by norm_num)
  · have part := @Memory.read_eq_within _ _ _ _ _ 12 4 same (by norm_num)
    have loaded := @Memory.load_eq_of_read_eq 32 _ _ _ _ 4 part le_rfl
    rw [headerLength, show (12 : ℤ) = 0 + (12 : ℕ) from rfl, loaded, header]
    exact Memory.load_store _ _ _ (by norm_num)

/-! ## What the frames are answered with -/

/-- The payloads that were handed on -/
def payloads (actions : List Action) : List (List (BitVec 8)) :=
  actions.filterMap fun
    | .receiveMessage _ _ payload => some payload
    | _ => none

/-- How many pongs were sent -/
def pongs (actions : List Action) : ℕ :=
  actions.countP fun
    | .sendEmpty type _ => type = PONG
    | _ => false

/-- The messages are handed on, and the pings are answered. -/
structure Answers (frames : List Frame) (actions : List Action) : Prop where
  payloads : payloads actions = (frames.filter (·.type = DATA)).map (·.payload)
  pongs : pongs actions = frames.countP (·.type = PING)

theorem Answers.append {first second : List Frame} {actions others : List Action}
    (earlier : Answers first actions) (later : Answers second others) :
    Answers (first ++ second) (actions ++ others) where
  payloads := by
    rw [PipeInterface.payloads, List.filterMap_append, List.filter_append, List.map_append,
      ← earlier.payloads, ← later.payloads]
    rfl
  pongs := by
    rw [PipeInterface.pongs, List.countP_append, List.countP_append, ← earlier.pongs,
      ← later.pongs]
    rfl

/-- The interface is established, and these bytes are in its buffer. -/
structure Running (pipe : PipeInterface) (magic : BitVec 64) (bytes : List (BitVec 8)) :
    Prop where
  state : pipe.state = .ESTABLISHED
  syncMagic : pipe.syncMagic = magic
  buffer : pipe.message.read 0 pipe.messageReceived.toNat = bytes

theorem Running.length (running : pipe.Running magic bytes) :
    pipe.messageReceived.toNat = bytes.length := by
  rw [← running.buffer, Memory.length_read]

/-- A header that has come whole -/
theorem Running.header (running : pipe.Running magic bytes) (long : SIZE ≤ bytes.length)
    (starts : bytes.take SIZE = (frame.bytes magic).take SIZE) :
    pipe.headerMagic = magic ∧ pipe.headerType = frame.type ∧
      pipe.headerLength = BitVec.ofNat 32 frame.payload.length := by
  have within : SIZE ≤ pipe.messageReceived.toNat := by
    rw [running.length]
    exact long
  apply header_of_read
  rw [← Memory.take_read _ _ within, running.buffer, starts, Frame.bytes,
    List.take_left' (Memory.length_read _ _ _)]

/-- Nothing is answered where the magic is the right one. -/
theorem Running.synchronize (running : pipe.Running magic bytes)
    (same : pipe.headerMagic = magic) :
    pipe.synchronize.again = true ∧ pipe.synchronize.pipe.Running magic bytes ∧
      Answers [] pipe.synchronize.actions := by
  have established : pipe.state ≠ .INITIALIZING := by
    rw [running.state]
    decide
  rw [PipeInterface.synchronize, if_neg (not_not.mpr (same.trans running.syncMagic.symm)),
    if_neg established]
  split_ifs with waiting
  · exact ⟨rfl, ⟨running.state, running.syncMagic, running.buffer⟩, rfl, rfl⟩
  · exact ⟨rfl, running, rfl, rfl⟩

/-! ## One frame -/

/-- Where the header is not whole, nothing happens. -/
theorem handleMessage_of_short (receiver : Receiver) (running : pipe.Running magic bytes)
    (short : bytes.length < SIZE) : pipe.handleMessage receiver = ⟨false, pipe, []⟩ := by
  have runt : pipe.messageReceived < BitVec.ofNat 32 SIZE := by
    rw [BitVec.lt_def, running.length]
    exact short
  rw [handleMessage, if_pos runt]

/-- The frame at the start of the buffer is handled. -/
theorem Running.handleMessage (receiver : Receiver) (running : pipe.Running magic bytes)
    (long : SIZE ≤ bytes.length)
    (starts : bytes.take SIZE = (frame.bytes magic).take SIZE) :
    ∃ reader : PipeInterface, reader.Running magic bytes ∧ reader.headerType = frame.type ∧
      reader.frameLength.toNat = (frame.bytes magic).length ∧
      (pipe.handleMessage receiver).again = (reader.handleFrame receiver).again ∧
      (pipe.handleMessage receiver).pipe = (reader.handleFrame receiver).pipe ∧
      ∀ frames, Answers frames (reader.handleFrame receiver).actions →
        Answers frames (pipe.handleMessage receiver).actions := by
  have size : SIZE = 16 := rfl
  have most : MAX_MESSAGE_SIZE = 65535 := rfl
  have short := frame.short
  rcases running.synchronize (running.header long starts).1 with ⟨again, still, nothing⟩
  have established : pipe.state ≠ .INITIALIZING := by
    rw [running.state]
    decide
  have enough : ¬pipe.messageReceived < BitVec.ofNat 32 SIZE := by
    rw [BitVec.lt_def, running.length]
    exact not_lt.mpr long
  rcases still.header long starts with ⟨-, type, length⟩
  refine ⟨pipe.synchronize.pipe, still, type, ?_, ?_, ?_, ?_⟩
  · rw [frameLength, length, Frame.length_bytes, BitVec.toNat_add, BitVec.toNat_ofNat,
      BitVec.toNat_ofNat]
    omega
  · simp only [PipeInterface.handleMessage, if_neg enough, again, if_true]
  · simp only [PipeInterface.handleMessage, if_neg enough, again, if_true]
  · intro frames answers
    simp only [PipeInterface.handleMessage, if_neg enough, again, if_true, established,
      false_and, if_false, List.nil_append]
    exact nothing.append answers

/-- Where the frame is not whole, nothing is answered. -/
theorem handleMessage_of_incomplete (receiver : Receiver) (running : pipe.Running magic bytes)
    (long : SIZE ≤ bytes.length)
    (starts : bytes.take SIZE = (frame.bytes magic).take SIZE)
    (incomplete : bytes.length < (frame.bytes magic).length) :
    (pipe.handleMessage receiver).again = false ∧
      (pipe.handleMessage receiver).pipe.Running magic bytes ∧
      Answers [] (pipe.handleMessage receiver).actions := by
  rcases running.handleMessage receiver long starts with
    ⟨reader, still, -, length, again, next, answers⟩
  have runt : reader.messageReceived < reader.frameLength := by
    rw [BitVec.lt_def, still.length, length]
    exact incomplete
  have dropped : reader.handleFrame receiver = ⟨false, reader, []⟩ := by
    rw [handleFrame, dif_pos runt]
  rw [again, next, dropped]
  exact ⟨rfl, still, answers [] (by rw [dropped]; exact ⟨rfl, rfl⟩)⟩

/-- What is done with a frame that has come whole; what is behind it is left alone. -/
theorem give_spec (overwrites : ℕ → Memory)
    (running : pipe.Running magic (frame.bytes magic ++ rest))
    (type : pipe.headerType = frame.type)
    (length : pipe.frameLength.toNat = (frame.bytes magic).length) :
    Answers [frame] (pipe.give (some overwrites) pipe.frameLength).actions ∧
      ∀ place : ℤ, pipe.frameLength.toNat ≤ place →
        (pipe.give (some overwrites) pipe.frameLength).message place = pipe.message place := by
  have size : SIZE = 16 := rfl
  have most : MAX_MESSAGE_SIZE = 65535 := rfl
  have short := frame.short
  rw [Frame.length_bytes] at length
  rw [give, type]
  rcases frame.known with ping | pong | data
  · rw [if_pos ping]
    refine ⟨⟨?_, ?_⟩, fun place _ => rfl⟩
    · simp [payloads, ping]
    · simp [pongs, ping]
  · rw [if_neg (by rw [pong]; decide), if_neg (by rw [pong]; decide)]
    refine ⟨⟨?_, ?_⟩, fun place _ => rfl⟩
    · simp [payloads, pong]
    · simp [pongs, pong]
  · have inside : (pipe.frameLength - BitVec.ofNat 32 SIZE).toInt = frame.payload.length := by
      have less : BitVec.ofNat 32 SIZE ≤ pipe.frameLength := by
        rw [BitVec.le_def, length]
        exact Nat.le_add_right _ _
      have count : (pipe.frameLength - BitVec.ofNat 32 SIZE).toNat = frame.payload.length := by
        rw [BitVec.toNat_sub_of_le less, length]
        exact Nat.add_sub_cancel_left _ _
      rw [BitVec.toInt_eq_toNat_cond, count, if_pos (by omega)]
    have whole : pipe.message.read SIZE frame.payload.length = frame.payload := by
      have total := running.length
      have buffer := running.buffer
      rw [total, List.length_append, Frame.length_bytes, Nat.add_assoc, Memory.read_add,
        Memory.read_add, Frame.bytes, List.append_assoc] at buffer
      have behind := (List.append_inj buffer (by simp)).2
      have payload := (List.append_inj behind (by simp)).1
      rwa [zero_add] at payload
    rw [if_neg (by rw [data]; decide), if_pos data]
    simp only [handleData, inside, Int.toNat_natCast, whole]
    refine ⟨⟨?_, ?_⟩, fun place above => ?_⟩
    · simp [payloads, data]
    · simp [pongs, data]
    · rw [if_neg (by omega)]

/-- A frame that has come whole is answered, and the rest is moved to the start. -/
theorem handleMessage_of_whole (overwrites : ℕ → Memory)
    (running : pipe.Running magic (frame.bytes magic ++ rest)) :
    ((pipe.handleMessage (some overwrites)).again = true ↔ rest ≠ []) ∧
      (pipe.handleMessage (some overwrites)).pipe.Running magic rest ∧
      Answers [frame] (pipe.handleMessage (some overwrites)).actions := by
  have longer : SIZE ≤ (frame.bytes magic ++ rest).length := by
    rw [List.length_append, Frame.length_bytes]
    omega
  have starts : (frame.bytes magic ++ rest).take SIZE = (frame.bytes magic).take SIZE := by
    rw [List.take_append_of_le_length (by rw [Frame.length_bytes]; omega)]
  rcases running.handleMessage (some overwrites) longer starts with
    ⟨reader, still, type, length, again, next, answers⟩
  rcases give_spec overwrites still type length with ⟨given, behind⟩
  have total := still.length
  rw [List.length_append, ← length] at total
  have fits : ¬reader.messageReceived < reader.frameLength := by
    rw [BitVec.lt_def]
    omega
  have remaining : (reader.messageReceived - reader.frameLength).toNat = rest.length := by
    rw [BitVec.toNat_sub_of_le (BitVec.not_lt.mp fits)]
    omega
  have left : reader.message.read (0 + reader.frameLength.toNat) rest.length = rest := by
    have buffer := still.buffer
    rw [total, Memory.read_add] at buffer
    exact (List.append_inj buffer (by rw [Memory.length_read, length])).2
  have kept : (reader.give (some overwrites) reader.frameLength).message.read
      (0 + reader.frameLength.toNat) rest.length = rest := by
    rw [Memory.read_congr fun place lower _ => behind place (by omega), left]
  rw [again, next]
  have handled : ((reader.handleFrame (some overwrites)).again = true ↔ rest ≠ []) ∧
      (reader.handleFrame (some overwrites)).pipe.Running magic rest ∧
      Answers [frame] (reader.handleFrame (some overwrites)).actions := by
    rw [handleFrame, dif_neg fits]
    dsimp only
    by_cases none : rest = []
    · have zero : reader.messageReceived - reader.frameLength = 0 :=
        BitVec.eq_of_toNat_eq (by rw [remaining, none]; rfl)
      rw [if_neg (not_not.mpr zero)]
      refine ⟨by simp [none], ⟨still.state, still.syncMagic, ?_⟩, given⟩
      dsimp only
      rw [zero, none]
      rfl
    · have some : reader.messageReceived - reader.frameLength ≠ 0 := fun zero => by
        rw [zero] at remaining
        exact none (List.length_eq_zero_iff.mp remaining.symm)
      rw [if_pos some]
      refine ⟨by simp [none], ⟨still.state, still.syncMagic, ?_⟩, ?_⟩
      · dsimp only
        rw [remaining, read_memmove _ le_rfl (by omega), kept]
      · exact given.append ⟨rfl, rfl⟩
  exact ⟨handled.1, handled.2.1, answers _ handled.2.2⟩

/-! ## The loop -/

/-- The next frame has not come whole. -/
def Incomplete (magic : BitVec 64) (bytes : List (BitVec 8)) (frames : List Frame) : Prop :=
  ∀ frame others, frames = frame :: others → bytes.length < (frame.bytes magic).length

/-- What the buffer holds, before the bytes that are still to come -/
structure Awaits (pipe : PipeInterface) (magic : BitVec 64) (frames : List Frame)
    (later : List (BitVec 8)) : Prop where
  running : ∃ bytes, pipe.Running magic bytes ∧ bytes ++ later = frames.flatMap (·.bytes magic) ∧
    Incomplete magic bytes frames

/-- The loop takes the frames that have come whole. -/
theorem handleLoop_frames (overwrites : ℕ → Memory) (frames : List Frame)
    (running : pipe.Running magic bytes) {later : List (BitVec 8)}
    (whole : bytes ++ later = frames.flatMap (·.bytes magic)) :
    ∃ fuel reader actions done others,
      handleLoop (some overwrites) fuel pipe = some (reader, actions) ∧
        frames = done ++ others ∧ reader.Awaits magic others later ∧ Answers done actions := by
  induction frames generalizing pipe bytes with
  | nil =>
      rw [List.flatMap_nil, List.append_eq_nil_iff] at whole
      rcases whole with ⟨rfl, rfl⟩
      have nothing := handleMessage_of_short (some overwrites) running (Nat.zero_lt_succ _)
      refine ⟨1, pipe, [], [], [], ?_, rfl, ⟨[], running, rfl, ?_⟩, ⟨rfl, rfl⟩⟩
      · simp only [handleLoop, nothing]
        rfl
      · intro frame others impossible
        cases impossible
  | cons frame frames ih =>
      rw [List.flatMap_cons] at whole
      by_cases incomplete : bytes.length < (frame.bytes magic).length
      · have awaits {reader : PipeInterface} (still : reader.Running magic bytes) :
            reader.Awaits magic (frame :: frames) later :=
          ⟨bytes, still, whole, fun other others same => by
            cases same
            exact incomplete⟩
        by_cases short : bytes.length < SIZE
        · have nothing := handleMessage_of_short (some overwrites) running short
          refine ⟨1, pipe, [], [], frame :: frames, ?_, rfl, awaits running, ⟨rfl, rfl⟩⟩
          simp only [handleLoop, nothing]
          rfl
        · have starts : bytes.take SIZE = (frame.bytes magic).take SIZE := by
            have cut := congrArg (List.take SIZE) whole
            rwa [List.take_append_of_le_length (not_lt.mp short), List.take_append_of_le_length
              (le_trans (not_lt.mp short) incomplete.le)] at cut
          rcases handleMessage_of_incomplete (some overwrites) running (not_lt.mp short) starts
            incomplete with ⟨again, still, nothing⟩
          refine ⟨1, _, _, [], frame :: frames, ?_, rfl, awaits still, nothing⟩
          simp only [handleLoop, again]
          rfl
      · have front : frame.bytes magic = bytes.take (frame.bytes magic).length := by
          have cut := congrArg (List.take (frame.bytes magic).length) whole
          rw [List.take_append_of_le_length (not_lt.mp incomplete), List.take_left] at cut
          exact cut.symm
        rcases (List.prefix_iff_eq_take.mpr front) with ⟨rest, rfl⟩
        rw [List.append_assoc, List.append_cancel_left_eq] at whole
        rcases handleMessage_of_whole overwrites running with ⟨again, next, answered⟩
        by_cases none : rest = []
        · have ends : ¬(pipe.handleMessage (some overwrites)).again = true := fun more =>
            again.mp more none
          refine ⟨1, _, _, [frame], frames, ?_, rfl, ⟨rest, next, whole, ?_⟩, answered⟩
          · simp only [handleLoop, ends]
            rfl
          · intro other others _
            rw [none, Frame.length_bytes, List.length_nil]
            exact Nat.lt_add_right _ (Nat.zero_lt_succ _)
        · rcases ih next whole with ⟨fuel, reader, actions, done, others, ends, rfl, awaits, more⟩
          refine ⟨fuel + 1, reader, (pipe.handleMessage (some overwrites)).actions ++ actions,
            frame :: done, others, ?_, rfl, awaits, answered.append more⟩
          simp only [handleLoop, again.mpr none, if_true, ends]
          rfl

/-! ## Reads -/

/-- One read after the other, and what was done at them -/
inductive Feeds (receiver : Receiver) :
    PipeInterface → List (List (BitVec 8)) → PipeInterface → List Action → Prop where
  | done {pipe : PipeInterface} : Feeds receiver pipe [] pipe []
  | read {pipe next last : PipeInterface} {chunk : List (BitVec 8)}
      {chunks : List (List (BitVec 8))} {actions others : List Action} {fuel : ℕ}
      (event : pipe.handleEvent receiver fuel chunk = some (next, actions))
      (rest : Feeds receiver next chunks last others) :
      Feeds receiver pipe (chunk :: chunks) last (actions ++ others)

/-- Every read is of no more than what the buffer has room for then. -/
def FitsBuffer (receiver : Receiver) (pipe : PipeInterface) (chunks : List (List (BitVec 8))) :
    Prop :=
  ∀ earlier chunk later reader actions, chunks = earlier ++ chunk :: later →
    Feeds receiver pipe earlier reader actions →
      chunk.length ≤ MAX_MESSAGE_SIZE - reader.messageReceived.toNat

/-- The bytes that are read come behind those in the buffer. -/
theorem Running.doRead (running : pipe.Running magic bytes) {chunk : List (BitVec 8)}
    (room : chunk.length ≤ MAX_MESSAGE_SIZE - pipe.messageReceived.toNat) :
    (pipe.doRead pipe.messageReceived chunk pipe.bounded).Running magic (bytes ++ chunk) := by
  have most : MAX_MESSAGE_SIZE = 65535 := rfl
  have bounded := pipe.bounded
  have all : chunk.take (MAX_MESSAGE_SIZE - pipe.messageReceived.toNat) = chunk :=
    List.take_of_length_le room
  have total : (pipe.messageReceived + BitVec.ofNat 32 chunk.length).toNat =
      pipe.messageReceived.toNat + chunk.length := by
    rw [BitVec.toNat_add, BitVec.toNat_ofNat]
    omega
  refine ⟨running.state, running.syncMagic, ?_⟩
  simp only [PipeInterface.doRead, all, total]
  rw [Memory.read_add, zero_add, Memory.read_write]
  congr 1
  rw [← running.buffer]
  apply Memory.read_congr
  intro place _ upper
  rw [Memory.write, if_neg (by omega)]

/-- Reads that fit bring the frames, however they are cut. -/
theorem feeds_frames (overwrites : ℕ → Memory) (chunks : List (List (BitVec 8)))
    (frames : List Frame) (awaits : pipe.Awaits magic frames chunks.flatten)
    (fits : FitsBuffer (some overwrites) pipe chunks) :
    ∃ last actions, Feeds (some overwrites) pipe chunks last actions ∧ Answers frames actions ∧
      last.Running magic [] := by
  induction chunks generalizing pipe frames with
  | nil =>
      rcases awaits.running with ⟨bytes, running, whole, incomplete⟩
      rw [List.flatten_nil, List.append_nil] at whole
      rcases frames with _ | ⟨frame, others⟩
      · have none : bytes = [] := whole
        subst none
        exact ⟨pipe, [], .done, ⟨rfl, rfl⟩, running⟩
      · have less := incomplete frame others rfl
        rw [whole, List.flatMap_cons, List.length_append] at less
        omega
  | cons chunk chunks ih =>
      rcases awaits.running with ⟨bytes, running, whole, -⟩
      have room := fits [] chunk chunks pipe [] rfl .done
      rw [List.flatten_cons, ← List.append_assoc] at whole
      rcases handleLoop_frames overwrites frames (running.doRead room) whole with
        ⟨fuel, reader, actions, done, others, ends, rfl, later, answered⟩
      have event : pipe.handleEvent (some overwrites) fuel chunk = some (reader, actions) := by
        rw [handleEvent, if_neg (by rw [running.state]; decide), getMessage]
        dsimp only
        rw [ends, running.state]
        rfl
      have behind : FitsBuffer (some overwrites) reader chunks := by
        intro earlier next further last before same feeds
        exact fits (chunk :: earlier) next further last (actions ++ before) (by rw [same]; rfl)
          (.read event feeds)
      rcases ih others later behind with ⟨last, more, feeds, rest, empty⟩
      exact ⟨last, actions ++ more, .read event feeds, answered.append rest, empty⟩

/--
Frames come out of an established pipe as they went in: the messages are handed on in order, every
ping has its pong, and the buffer is empty again.
-/
theorem framing (overwrites : ℕ → Memory) (established : pipe.state = .ESTABLISHED)
    (empty : pipe.messageReceived = 0) (frames : List Frame) (chunks : List (List (BitVec 8)))
    (cut : chunks.flatten = frames.flatMap (·.bytes pipe.syncMagic))
    (fits : FitsBuffer (some overwrites) pipe chunks) :
    ∃ last actions, Feeds (some overwrites) pipe chunks last actions ∧
      payloads actions = (frames.filter (·.type = DATA)).map (·.payload) ∧
      pongs actions = frames.countP (·.type = PING) ∧
      last.state = .ESTABLISHED ∧ last.messageReceived = 0 := by
  have running : pipe.Running pipe.syncMagic [] := ⟨established, rfl, by rw [empty]; rfl⟩
  have awaits : pipe.Awaits pipe.syncMagic frames chunks.flatten := by
    refine ⟨[], running, cut, fun frame others _ => ?_⟩
    rw [Frame.length_bytes, List.length_nil]
    exact Nat.lt_add_right _ (Nat.zero_lt_succ _)
  rcases feeds_frames overwrites chunks frames awaits fits with
    ⟨last, actions, feeds, answers, still⟩
  exact ⟨last, actions, feeds, answers.payloads, answers.pongs, still.state,
    BitVec.eq_of_toNat_eq still.length⟩

/-- A ping -/
def aPing : Frame := ⟨PING, [], by decide, by decide⟩

/-- A message of two bytes -/
def aMessage : Frame := ⟨DATA, [1, 2], by decide, by decide⟩

/-- A ping and a message come in one read. -/
theorem framing_of_two :
    ∃ last actions,
      Feeds (some fun _ _ => 0) established [[aPing, aMessage].flatMap (·.bytes 0)] last actions ∧
      payloads actions = ([aPing, aMessage].filter (·.type = DATA)).map (·.payload) ∧
      pongs actions = [aPing, aMessage].countP (·.type = PING) ∧
      last.state = .ESTABLISHED ∧ last.messageReceived = 0 := by
  have cut : [[aPing, aMessage].flatMap (·.bytes 0)].flatten =
      [aPing, aMessage].flatMap (·.bytes established.syncMagic) := by
    rw [List.flatten_singleton, established]
  refine framing (fun _ _ => 0) rfl rfl [aPing, aMessage] _ cut ?_
  intro earlier chunk later reader actions same feeds
  rcases earlier with _ | ⟨first, earlier⟩
  · rw [List.nil_append, List.cons.injEq] at same
    cases feeds
    rw [← same.1]
    simp only [List.flatMap_cons, List.flatMap_nil, List.length_append, Frame.length_bytes]
    decide
  · rw [List.cons_append, List.cons.injEq] at same
    exact absurd same.2.symm (by simp)

end Cjdns.PipeInterface
