import Cjdns.Interface.PipeConnection

/-!
# The agreement of two interfaces

A connection does, in bytes, what a talk does in frames. So the interfaces come to a common magic,
neither of them ever loses the synchronization, and the messages arrive once and in order.
-/

namespace Cjdns.PipeInterface

variable {receiver : Receiver} {pipe : PipeInterface} {peer : Peer}
  {bytes : List (BitVec 8)}

/-- The loop comes to one result at most. -/
theorem handleLoop_unique {fuel enough : ℕ} {result other : PipeInterface × List Action}
    (first : handleLoop receiver fuel pipe = some result)
    (second : handleLoop receiver enough pipe = some other) : result = other := by
  induction fuel generalizing pipe enough result other with
  | zero => cases first
  | succ fuel ih =>
      cases enough with
      | zero => cases second
      | succ enough =>
          simp only [handleLoop] at first second
          split_ifs at first second with again
          · rcases Option.map_eq_some_iff.mp first with ⟨rest, one, rfl⟩
            rcases Option.map_eq_some_iff.mp second with ⟨others, two, rfl⟩
            rw [ih one two]
          · rw [← Option.some.inj first, ← Option.some.inj second]

theorem handleEvent_unique {fuel enough : ℕ} {available : List (BitVec 8)}
    {result other : PipeInterface × List Action}
    (first : pipe.handleEvent receiver fuel available = some result)
    (second : pipe.handleEvent receiver enough available = some other) : result = other := by
  rw [handleEvent] at first second
  split_ifs at first second with lost
  · exact Option.some.inj (first.symm.trans second)
  · rcases Option.map_eq_some_iff.mp first with ⟨rest, one, rfl⟩
    rcases Option.map_eq_some_iff.mp second with ⟨others, two, rfl⟩
    rw [handleLoop_unique one two]

/-- The bytes that are read come behind those in the buffer. -/
theorem Mirrors.doRead (mirrors : pipe.Mirrors peer bytes) (available : List (BitVec 8)) :
    (pipe.doRead pipe.messageReceived available pipe.bounded).Mirrors peer
      (bytes ++ available.take (MAX_MESSAGE_SIZE - pipe.messageReceived.toNat)) := by
  have most : MAX_MESSAGE_SIZE = 65535 := rfl
  have bounded := pipe.bounded
  have count := List.length_take_le (MAX_MESSAGE_SIZE - pipe.messageReceived.toNat) available
  have total : (pipe.messageReceived + BitVec.ofNat 32
      (available.take (MAX_MESSAGE_SIZE - pipe.messageReceived.toNat)).length).toNat =
      pipe.messageReceived.toNat +
        (available.take (MAX_MESSAGE_SIZE - pipe.messageReceived.toNat)).length := by
    rw [BitVec.toNat_add, BitVec.toNat_ofNat]
    omega
  refine ⟨mirrors.state, mirrors.syncMagic, ?_⟩
  simp only [PipeInterface.doRead, total]
  rw [Memory.read_add, zero_add, Memory.read_write]
  congr 1
  rw [← mirrors.buffer]
  apply Memory.read_congr
  intro place _ upper
  rw [Memory.write, if_neg (by omega)]

namespace Connection

variable {connection : Connection} {talk : Talk} {magic : Side → BitVec 64}
  {overwrites : Side → ℕ → Memory} {side : Side} {count : ℕ}

theorem Mirrors.state (mirrors : connection.Mirrors talk) (side : Side) :
    (connection.pipe side).state =
      if (talk.peer side).established then .ESTABLISHED else .INITIALIZING := by
  rcases mirrors.ends side with ⟨buffer, ends⟩
  exact ends.mirrors.state

theorem Mirrors.syncMagic (mirrors : connection.Mirrors talk) (side : Side) :
    (connection.pipe side).syncMagic = (talk.peer side).magic := by
  rcases mirrors.ends side with ⟨buffer, ends⟩
  exact ends.mirrors.syncMagic

theorem Mirrors.room (mirrors : connection.Mirrors talk) (side : Side) :
    (connection.pipe side).room =
      MAX_MESSAGE_SIZE - (connection.pipe side).messageReceived.toNat := by
  rw [PipeInterface.room, mirrors.state side]
  cases (talk.peer side).established <;> rfl

/-- An end that nothing happens to: frames may be put behind those on their way to it. -/
theorem EndMirrors.extend {after : Connection} {next : Talk} {buffer : List (BitVec 8)}
    (ends : connection.EndMirrors talk side buffer) (pipe : after.pipe side = connection.pipe side)
    (peer : next.peer side = talk.peer side) {frames : List Sent}
    (incoming : after.incoming side = connection.incoming side ++ frames.flatMap (·.bytes))
    (queue : next.queue side = talk.queue side ++ frames) : after.EndMirrors next side buffer where
  mirrors := by
    rw [pipe, peer]
    exact ends.mirrors
  stream := by
    rw [incoming, queue, ← List.append_assoc, ends.stream, List.flatMap_append]
  starting := by
    rw [peer]
    exact ends.starting
  incomplete sent rest same := by
    rw [queue] at same
    cases waiting : talk.queue side with
    | nil =>
        have stream := ends.stream
        rw [waiting, List.flatMap_nil, List.append_eq_nil_iff] at stream
        rw [stream.1]
        exact List.length_pos_of_ne_nil (isPrefixCode_bytes.ne_nil sent)
    | cons head others =>
        rw [waiting, List.cons_append, List.cons.injEq] at same
        exact same.1 ▸ ends.incomplete head others waiting

/-- A new connection is a new talk. -/
theorem mirrors_start (magic : Side → BitVec 64) : (start magic).Mirrors (Talk.start magic) where
  ends side := by
    refine ⟨[], ⟨rfl, rfl, rfl⟩, ?_, fun _ => rfl, fun sent rest _ => ?_⟩
    · rw [List.nil_append, Connection.start, Talk.start]
      dsimp only
      rw [written_ping, List.flatMap_singleton]
    · exact List.length_pos_of_ne_nil (isPrefixCode_bytes.ne_nil sent)
  said := rfl
  heard := rfl

/-- Frames are written. -/
theorem Mirrors.write (mirrors : connection.Mirrors talk) {frames : List Sent}
    {bytes : List (BitVec 8)} (whole : bytes = frames.flatMap (·.bytes)) :
    (connection.write side bytes).Mirrors (talk.put side frames) where
  ends := by
    subst whole
    rw [Side.forall_iff side]
    constructor
    · rcases mirrors.ends side with ⟨buffer, ends⟩
      refine ⟨buffer, @EndMirrors.extend _ _ _ _ _ _ ends rfl rfl [] ?_ ?_⟩
      · rw [List.flatMap_nil, List.append_nil]
        exact Function.update_of_ne (Side.ne_other side) _ _
      · rw [Talk.queue_put_self, List.append_nil]
    · rcases mirrors.ends side.other with ⟨buffer, ends⟩
      exact ⟨buffer, ends.extend rfl rfl (Function.update_self _ _ _) Talk.queue_put_other⟩
  said := mirrors.said
  heard := mirrors.heard

/-- What `getMessage` comes to when the loop has come to this -/
theorem Looped.forget {next : Talk} {reader : PipeInterface} {actions : List Action}
    {buffer later : List (BitVec 8)} (looped : Looped talk next side reader actions buffer later)
    (empty : buffer = []) :
    ({ reader with messageReceived := 0, bounded := Nat.zero_le _ } : PipeInterface).Mirrors
      (next.peer side) buffer where
  state := looped.mirrors.state
  syncMagic := looped.mirrors.syncMagic
  buffer := empty.symm

/-- The connection after the loop is the talk after the frames. -/
theorem Looped.mirrors_handled {next : Talk} {reader last : PipeInterface}
    {actions : List Action} {left : List (BitVec 8)}
    (looped : Looped talk next side reader actions left
      ((connection.incoming side).drop (min count (connection.pipe side).room)))
    (mirrors : connection.Mirrors talk) (still : last.Mirrors (next.peer side) left)
    (empty : (talk.peer side).established = false → left = []) :
    (connection.handled side count last actions).Mirrors next where
  ends := by
    rw [Side.forall_iff side]
    constructor
    · have pipe : (connection.handled side count last actions).pipe side = last :=
        Function.update_self _ _ _
      have incoming : (connection.handled side count last actions).incoming side =
          (connection.incoming side).drop (min count (connection.pipe side).room) :=
        (Function.update_of_ne (Side.ne_other side) _ _).trans (Function.update_self _ _ _)
      refine ⟨left, ?_, ?_, fun starting => empty ?_, looped.incomplete⟩
      · rw [pipe]
        exact still
      · rw [incoming]
        exact looped.stream
      · rw [← Bool.not_eq_true] at starting ⊢
        exact fun established => starting (looped.lasting established)
    · rcases mirrors.ends side.other with ⟨buffer, ends⟩
      rcases isPrefixCode_bytes.split looped.queue.symm with ⟨frames, queue, put⟩
      refine ⟨buffer, ends.extend (Function.update_of_ne (Side.other_ne side) _ _) looped.peer ?_
        queue⟩
      rw [← put]
      exact Function.update_self _ _ _
  said := mirrors.said.trans looped.said.symm
  heard := by
    funext either
    revert either
    rw [Side.forall_iff side, looped.heard, looped.others, ← mirrors.heard]
    exact ⟨Function.update_self _ _ _, Function.update_of_ne (Side.other_ne side) _ _⟩

/-- A read of whole frames, or of an established end, does what the frames do. -/
theorem Mirrors.handleEvent (mirrors : connection.Mirrors talk)
    (reachable : (Talk.talks magic).Reachable (fun _ _ => True) talk)
    (orderly : Orderly connection (.handleEvent side count)) :
    ∃ fuel reader actions next,
      (connection.pipe side).handleEvent (some (overwrites side)) fuel
        ((connection.incoming side).take count) = some (reader, actions) ∧
      Relation.ReflTransGen ((Talk.talks magic).Steps fun _ _ => True) talk next ∧
      (connection.handled side count reader actions).Mirrors next := by
  rcases mirrors.ends side with ⟨buffer, ends⟩
  have room := mirrors.room side
  have state := mirrors.state side
  have notLost : (connection.pipe side).state ≠ .LOST := by
    rw [state]
    split_ifs <;> decide
  have read := ends.mirrors.doRead ((connection.incoming side).take count)
  rw [List.take_take, ← room, min_comm] at read
  have stream : (buffer ++ (connection.incoming side).take (min count (connection.pipe side).room)) ++
      (connection.incoming side).drop (min count (connection.pipe side).room) =
        (talk.queue side).flatMap (·.bytes) := by
    rw [List.append_assoc, List.take_append_drop, ends.stream]
  have whole (starting : (talk.peer side).established = false) : ∃ frames : List Sent,
      buffer ++ (connection.incoming side).take (min count (connection.pipe side).room) =
        frames.flatMap (·.bytes) := by
    rw [ends.starting starting, List.nil_append]
    exact orderly (by rw [state, starting]; rfl)
  rcases handleLoop_mirrors (overwrites side) reachable read stream whole with
    ⟨fuel, reader, actions, next, left, runs, run, looped, empty⟩
  have event : (connection.pipe side).handleEvent (some (overwrites side)) fuel
      ((connection.incoming side).take count) =
        some (if (connection.pipe side).state = .INITIALIZING then
          { reader with messageReceived := 0, bounded := Nat.zero_le _ } else reader, actions) := by
    rw [PipeInterface.handleEvent, if_neg notLost, getMessage]
    dsimp only
    rw [runs]
    rfl
  refine ⟨fuel, _, actions, next, event, run, ?_⟩
  refine looped.mirrors_handled mirrors ?_ fun starting => empty (whole starting)
  split_ifs with starting
  · refine looped.forget (empty (whole ?_))
    rw [state] at starting
    split_ifs at starting with established
    simpa using established
  · exact looped.mirrors

/-- A message of an established end is put on its way. -/
theorem Mirrors.sendMessage (mirrors : connection.Mirrors talk)
    {message bytes : List (BitVec 8)} (short : message.length ≤ MAX_MESSAGE_SIZE - SIZE)
    (sends : (connection.pipe side).sendMessage message = some bytes) :
    ∃ next, Relation.ReflTransGen ((Talk.talks magic).Steps fun _ _ => True) talk next ∧
      Mirrors { connection.write side bytes with
        said := Function.update connection.said side (connection.said side ++ [message]) }
        next := by
  let frame : Frame := ⟨DATA, message, .inr (.inr rfl), short⟩
  have state := mirrors.state side
  rw [PipeInterface.sendMessage] at sends
  split_ifs at sends with starting
  have established : (talk.peer side).established = true := by
    by_contra waits
    exact starting (by rw [state, if_neg waits])
  have whole : bytes = [(Sent.mk (talk.peer side).magic frame)].flatMap (·.bytes) := by
    rw [← Option.some.inj sends, List.flatMap_singleton, mirrors.syncMagic]
    rfl
  refine ⟨talk.send side frame, .single ⟨.send side frame, trivial, .send rfl established⟩, ?_⟩
  refine ⟨fun either => ?_, by rw [mirrors.said]; rfl, mirrors.heard⟩
  rcases (mirrors.write whole).ends either with ⟨buffer, ends⟩
  exact ⟨buffer, ends.mirrors, ends.stream, ends.starting, ends.incomplete⟩

theorem Mirrors.waitUntilReady (mirrors : connection.Mirrors talk) :
    Mirrors { connection with
      pipe := Function.update connection.pipe side (connection.pipe side).waitUntilReady }
      talk where
  ends := by
    have same : (connection.pipe side).waitUntilReady.state = (connection.pipe side).state ∧
        (connection.pipe side).waitUntilReady.syncMagic = (connection.pipe side).syncMagic ∧
        (connection.pipe side).waitUntilReady.message = (connection.pipe side).message ∧
        (connection.pipe side).waitUntilReady.messageReceived =
          (connection.pipe side).messageReceived := by
      rw [PipeInterface.waitUntilReady]
      split_ifs
      · exact ⟨rfl, rfl, rfl, rfl⟩
      · exact ⟨rfl, rfl, rfl, rfl⟩
    rcases same with ⟨state, syncMagic, message, received⟩
    rw [Side.forall_iff side]
    constructor
    · rcases mirrors.ends side with ⟨buffer, ends⟩
      refine ⟨buffer, ?_, ends.stream, ends.starting, ends.incomplete⟩
      dsimp only
      rw [Function.update_self]
      exact ⟨state.trans ends.mirrors.state, syncMagic.trans ends.mirrors.syncMagic,
        by rw [message, received]; exact ends.mirrors.buffer⟩
    · rcases mirrors.ends side.other with ⟨buffer, ends⟩
      refine ⟨buffer, ?_, ends.stream, ends.starting, ends.incomplete⟩
      dsimp only
      rw [Function.update_of_ne (Side.other_ne side)]
      exact ends.mirrors
  said := mirrors.said
  heard := mirrors.heard

/-- Every step of a connection is what some steps of the talk are. -/
theorem isSimulation (magic : Side → BitVec 64) (overwrites : Side → ℕ → Memory) :
    TransitionSystem.IsSimulation (connections magic overwrites) Orderly (Talk.talks magic)
      (fun _ _ => True) Mirrors where
  initial := by
    rintro _ rfl
    exact ⟨_, rfl, mirrors_start magic⟩
  step := by
    intro before event after talk mirrors reachable orderly taken
    cases taken with
    | handleEvent reads =>
        rcases @Mirrors.handleEvent _ _ _ overwrites _ _ mirrors reachable orderly with
          ⟨enough, other, done, next, event, run, still⟩
        cases handleEvent_unique reads event
        exact ⟨next, run, still⟩
    | handleTimeout side =>
        refine ⟨_, .single ⟨.ping side, trivial, .ping side⟩, mirrors.write ?_⟩
        rw [written_ping, List.flatMap_singleton, mirrors.syncMagic]
    | sendMessage sends =>
        exact mirrors.sendMessage orderly sends
    | undeliverable refuses => exact ⟨talk, .refl, mirrors⟩
    | waitUntilReady side => exact ⟨talk, .refl, mirrors.waitUntilReady⟩

/-! ## What holds of a connection -/

/-- What holds in every connection: the ends come to the smaller one of their magics, and the
messages are handed on once and in order. -/
structure Sound (magic : Side → BitVec 64) (overwrites : Side → ℕ → Memory)
    (connection : Connection) : Prop where
  synchronized : ∀ side, (connection.pipe side).state ≠ .LOST
  agreed : ∀ side, (connection.pipe side).state = .ESTABLISHED →
    ∀ either, (connection.pipe either).syncMagic = Talk.least magic
  ordered : ∀ side, connection.heard side <+: connection.said side.other
  complete : ∀ side, connection.incoming side = [] →
    (connection.pipe side).messageReceived = 0 → connection.heard side = connection.said side.other
  /-- The handshake does not get stuck. -/
  finished : (∀ side, connection.incoming side = [] ∧
    (connection.pipe side).messageReceived = 0) → ∀ side, (connection.pipe side).state = .ESTABLISHED
  /-- Every read comes to its end. -/
  returns : ∀ side count, Orderly connection (.handleEvent side count) →
    ∃ after, Step overwrites connection (.handleEvent side count) after

/-- Where nothing is on its way in bytes, nothing is in frames. -/
theorem Mirrors.queue_eq_nil (mirrors : connection.Mirrors talk)
    (none : connection.incoming side = []) (empty : (connection.pipe side).messageReceived = 0) :
    talk.queue side = [] := by
  rcases mirrors.ends side with ⟨buffer, ends⟩
  have nothing : buffer = [] := by
    rw [← ends.mirrors.buffer, empty]
    rfl
  apply isPrefixCode_bytes.eq_nil_of_flatMap
  rw [← ends.stream, nothing, none]
  rfl

/-- Two new interfaces come to the same magic whatever order things happen in, as long as frames
that begin the connection are read whole. -/
theorem agreed_of_reachable
    (reachable : (connections magic overwrites).Reachable Orderly connection) :
    connection.Sound magic overwrites := by
  rcases reachable.simulated (isSimulation magic overwrites) with ⟨talk, reaches, mirrors⟩
  have sound := reaches.invariant (Talk.sound_isInvariant magic)
  have established (side : Side) (state : (connection.pipe side).state = .ESTABLISHED) :
      (talk.peer side).established = true := by
    rw [mirrors.state side] at state
    split_ifs at state with established
    exact established
  refine ⟨fun side => ?_, fun side state either => ?_, fun side => ?_, fun side none empty => ?_,
    fun quiet side => ?_, fun side count orderly => ?_⟩
  · rw [mirrors.state side]
    split_ifs <;> decide
  · rw [mirrors.syncMagic either]
    exact sound.agreed side (established side state) either
  · rw [mirrors.heard, mirrors.said, sound.exact side]
    exact List.prefix_append _ _
  · rw [mirrors.heard, mirrors.said, sound.exact side, mirrors.queue_eq_nil none empty]
    exact (List.append_nil _).symm
  · have queues (side : Side) : talk.queue side = [] :=
      mirrors.queue_eq_nil (quiet side).1 (quiet side).2
    rw [mirrors.state side, if_pos]
    by_contra waits
    rw [Bool.not_eq_true] at waits
    rcases sound.awaited side waits with ⟨sent, inside, -⟩ | ⟨sent, inside, -⟩
    · rw [queues] at inside
      cases inside
    · rw [queues] at inside
      cases inside
  · rcases @Mirrors.handleEvent _ _ _ overwrites _ _ mirrors reaches orderly with
      ⟨fuel, reader, actions, next, event, -, -⟩
    exact ⟨_, .handleEvent event⟩

/-- The near end begins with the smaller magic. -/
def twoMagics : Side → BitVec 64
  | .near => 1
  | .far => 2

/-- A step, with the frames that an interface reads if it is initializing -/
def orderlyStep (connection : Connection) : Event × List Sent → Option Connection
  | (.handleEvent side count, frames) =>
      if (connection.pipe side).state = .INITIALIZING → (connection.incoming side).take
          (min count (connection.pipe side).room) = frames.flatMap (·.bytes) then
        ((connection.pipe side).handleEvent (some fun _ _ => 0) 4
          ((connection.incoming side).take count)).map fun read =>
            connection.handled side count read.1 read.2
      else none
  | (.handleTimeout side, _) =>
      some (connection.write side (written [.sendEmpty PING (connection.pipe side).syncMagic]))
  | (.sendMessage side message, _) =>
      if message.length ≤ MAX_MESSAGE_SIZE - SIZE then
        ((connection.pipe side).sendMessage message).map fun bytes =>
          { connection.write side bytes with
            said := Function.update connection.said side (connection.said side ++ [message]) }
      else none
  | (.waitUntilReady side, _) =>
      some { connection with
        pipe := Function.update connection.pipe side (connection.pipe side).waitUntilReady }

theorem orderly_of_orderlyStep {after : Connection} {event : Event} {frames : List Sent}
    (taken : connection.orderlyStep (event, frames) = some after) :
    Orderly connection event ∧ Step (fun _ _ _ => 0) connection event after := by
  cases event with
  | handleEvent side count =>
      rcases Option.ite_none_right_eq_some.mp taken with ⟨whole, taken⟩
      rcases Option.map_eq_some_iff.mp taken with ⟨⟨reader, actions⟩, reads, rfl⟩
      exact ⟨fun starting => ⟨frames, whole starting⟩, .handleEvent reads⟩
  | handleTimeout side =>
      cases taken
      exact ⟨trivial, .handleTimeout side⟩
  | sendMessage side message =>
      rcases Option.ite_none_right_eq_some.mp taken with ⟨short, taken⟩
      rcases Option.map_eq_some_iff.mp taken with ⟨bytes, sends, rfl⟩
      exact ⟨short, .sendMessage sends⟩
  | waitUntilReady side =>
      cases taken
      exact ⟨trivial, .waitUntilReady side⟩

/-- Both ends are new. They come to an agreement, and a message is read in two parts. -/
theorem sound_of_conversation :
    ∃ connection : Connection, connection.heard .far = [[1, 2, 3]] ∧
      (connection.pipe .near).state = .ESTABLISHED ∧ (connection.pipe .far).state = .ESTABLISHED ∧
      connection.Sound twoMagics fun _ _ _ => 0 := by
  let events : List (Event × List Sent) := [(.handleEvent .far 16, [⟨1, aPing⟩]),
    (.handleEvent .near 16, [⟨2, aPing⟩]), (.handleEvent .near 16, [⟨1, aPong⟩]),
    (.sendMessage .near [1, 2, 3], []), (.handleEvent .far 16, [⟨1, aPong⟩]),
    (.handleTimeout .near, []), (.handleEvent .far 26, []), (.handleEvent .far 16, [])]
  have run : (events.foldlM orderlyStep (start twoMagics)).any (fun connection =>
      decide (connection.heard .far = [[1, 2, 3]] ∧
        (connection.pipe .near).state = .ESTABLISHED ∧
          (connection.pipe .far).state = .ESTABLISHED)) = true := by
    decide +kernel
  rcases (Option.any_eq_true _ _).mp run with ⟨connection, run, ends⟩
  rcases of_decide_eq_true ends with ⟨heard, near, far⟩
  have starts : (connections twoMagics fun _ _ _ => 0).Reachable Orderly (start twoMagics) :=
    .initial rfl
  refine ⟨connection, heard, near, far, agreed_of_reachable ?_⟩
  refine TransitionSystem.invariant_of_foldlM (fun event _ earlier taken => ?_) run starts
  rcases orderly_of_orderlyStep taken with ⟨orderly, step⟩
  exact earlier.step orderly step

end Connection

end Cjdns.PipeInterface
