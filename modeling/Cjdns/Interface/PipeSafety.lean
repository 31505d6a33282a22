import Cjdns.Interface.PipeInterface

/-!
# Whether the pipe reader stops

A frame has its length in its header, and the size of the header is added to it modulo 2^32. A
length just below that makes a frame that is shorter than its own header, or that has no length
at all and is never done with.
-/

namespace Cjdns.PipeInterface

/-- What is handed on lies in the bytes that were received, and what is moved in the buffer. -/
def Action.Inside : Action → Prop
  | .receiveMessage length received _ => 0 ≤ length ∧ SIZE + length ≤ received
  | .memmove source count => source + count ≤ MAX_MESSAGE_SIZE
  | _ => True

/-- The interface when it comes to the length of a frame -/
def turn (pipe : PipeInterface) : Option PipeInterface :=
  if pipe.messageReceived < BitVec.ofNat 32 SIZE then none
  else if pipe.synchronize.again then some pipe.synchronize.pipe else none

/-- The length of the frame with its header does not fit its word. -/
def Wraps (frame : PipeInterface) : Prop :=
  2 ^ 32 - SIZE ≤ frame.headerLength.toNat

/--
The frame is longer than what was received, or it is neither a message of a negative length nor,
where the reader goes on behind it, a frame without length.
-/
def Proper (receiver : Receiver) (looped : Prop) (frame : PipeInterface) : Prop :=
  frame.messageReceived < frame.frameLength ∨
    (frame.headerType = DATA → receiver ≠ none → ¬frame.Wraps) ∧
      (looped → frame.frameLength = 0 → frame.messageReceived.toNat < SIZE)

/-- The states in which the loop of `getMessage` is begun again -/
inductive Comes (receiver : Receiver) (start : PipeInterface) : PipeInterface → Prop where
  | start : Comes receiver start start
  | again {pipe : PipeInterface} (earlier : Comes receiver start pipe)
      (more : (pipe.handleMessage receiver).again = true) :
      Comes receiver start (pipe.handleMessage receiver).pipe

/-- Every frame whose turn it comes to be is proper. -/
def Orderly (receiver : Receiver) (available : List (BitVec 8)) (pipe : PipeInterface) : Prop :=
  if pipe.state = .LOST then
    ∀ frame, ((pipe.doRead 0 available (Nat.zero_le _)).tryReestablish.again = true →
      (pipe.doRead 0 available (Nat.zero_le _)).tryReestablish.pipe.turn = some frame →
        frame.Proper receiver False)
  else
    ∀ reader frame,
      Comes receiver (pipe.doRead pipe.messageReceived available pipe.bounded) reader →
        reader.turn = some frame → frame.Proper receiver True

/-- The reader comes to an end, and keeps to its buffer and to what was received. -/
def EndsInside (receiver : Receiver) (available : List (BitVec 8)) (pipe : PipeInterface) : Prop :=
  ∃ fuel result, pipe.handleEvent receiver fuel available = some result ∧
    result.1.messageReceived.toNat ≤ MAX_MESSAGE_SIZE ∧ ∀ action ∈ result.2, action.Inside

variable {receiver : Receiver} {pipe frame : PipeInterface}

/-! ## One frame -/

theorem toNat_frameLength (frame : PipeInterface) :
    frame.frameLength.toNat = (frame.headerLength.toNat + SIZE) % 2 ^ 32 := by
  rw [frameLength, BitVec.toNat_add]
  rfl

theorem frameLength_sub (frame : PipeInterface) :
    frame.frameLength - BitVec.ofNat 32 SIZE = frame.headerLength := by
  rw [frameLength, BitVec.add_sub_cancel]

/-- Whether the actions for a frame are inside -/
theorem actions_handleFrame_inside_iff (receiver : Receiver) (frame : PipeInterface) :
    (∀ action ∈ (frame.handleFrame receiver).actions, action.Inside) ↔
      frame.messageReceived < frame.frameLength ∨
        (frame.headerType = DATA → receiver ≠ none → ¬frame.Wraps) := by
  have size : SIZE = 16 := rfl
  have most : MAX_MESSAGE_SIZE = 65535 := rfl
  have bounded := frame.bounded
  have sum := toNat_frameLength frame
  have small := frame.headerLength.isLt
  rw [handleFrame]
  by_cases runt : frame.messageReceived < frame.frameLength
  · rw [dif_pos runt]
    exact iff_of_true (by simp) (Or.inl runt)
  have le : frame.frameLength.toNat ≤ frame.messageReceived.toNat := BitVec.not_lt.mp runt
  have remaining : (frame.messageReceived - frame.frameLength).toNat =
      frame.messageReceived.toNat - frame.frameLength.toNat :=
    BitVec.toNat_sub_of_le (BitVec.not_lt.mp runt)
  rw [dif_neg runt, or_iff_right runt]
  -- the rest is moved inside the buffer
  have moved : (Action.memmove frame.frameLength.toNat
      (frame.messageReceived - frame.frameLength).toNat).Inside := by
    simp only [Action.Inside]
    omega
  have given : (∀ action ∈ (frame.give receiver frame.frameLength).actions, action.Inside) ↔
      (frame.headerType = DATA → receiver ≠ none → ¬frame.Wraps) := by
    rw [give]
    by_cases ping : frame.headerType = PING
    · rw [if_pos ping]
      refine iff_of_true (by simp [Action.Inside]) (fun data => ?_)
      rw [ping] at data
      exact absurd data (by decide)
    rw [if_neg ping]
    by_cases data : frame.headerType = DATA
    · rw [if_pos data, frameLength_sub]
      rcases receiver with _ | overwrites
      · exact iff_of_true (by simp [handleData]) (fun _ some => absurd rfl some)
      · simp only [handleData, List.mem_singleton, forall_eq, Action.Inside, Wraps,
          BitVec.toInt_eq_toNat_cond]
        by_cases wraps : 2 ^ 32 - SIZE ≤ frame.headerLength.toNat
        · refine iff_of_false ?_ (fun never => never data (by simp) wraps)
          rw [if_neg (by omega)]
          omega
        · refine iff_of_true ?_ (fun _ _ => wraps)
          rw [if_pos (by omega)]
          omega
    · rw [if_neg data]
      exact iff_of_true (by simp) (fun same => absurd same data)
  rw [← given]
  dsimp only
  split_ifs
  · simp only [List.mem_append, List.mem_singleton]
    constructor
    · exact fun all action member => all action (Or.inl member)
    · rintro all action (member | rfl)
      · exact all action member
      · exact moved
  · exact Iff.rfl

/-- Behind a frame, its length is gone from what was received. -/
theorem handleFrame_again (more : (frame.handleFrame receiver).again = true) :
    frame.frameLength.toNat ≤ frame.messageReceived.toNat ∧
      (frame.handleFrame receiver).pipe.messageReceived.toNat =
        frame.messageReceived.toNat - frame.frameLength.toNat := by
  rw [handleFrame] at more ⊢
  by_cases runt : frame.messageReceived < frame.frameLength
  · rw [dif_pos runt] at more
    cases more
  · rw [dif_neg runt] at more ⊢
    dsimp only at more ⊢
    split_ifs at more ⊢
    exact ⟨BitVec.not_lt.mp runt, BitVec.toNat_sub_of_le (BitVec.not_lt.mp runt)⟩

theorem actions_tryReestablish_inside (pipe : PipeInterface) :
    ∀ action ∈ pipe.tryReestablish.actions, action.Inside := by
  have bounded := pipe.bounded
  rw [tryReestablish]
  cases found : memmem pipe.message pipe.syncMagic pipe.messageReceived.toNat with
  | none => simp
  | some place =>
      have inside := (memmem_eq_some found).1
      simp only [List.mem_singleton, forall_eq, Action.Inside]
      omega

theorem actions_synchronize_inside (pipe : PipeInterface) :
    ∀ action ∈ pipe.synchronize.actions, action.Inside := by
  rw [synchronize]
  split_ifs with other starts lower same waiting
  · simp
  · simp
  · simp only [List.mem_append, List.mem_singleton]
    rintro action (member | rfl)
    · exact actions_tryReestablish_inside _ action member
    · trivial
  · simp
  · simp [Action.Inside]
  · simp

/-- Where the frame has the magic, or the magic is not yet agreed on -/
def Synchronized (frame : PipeInterface) : Prop :=
  frame.state ≠ .INITIALIZING → frame.headerMagic = frame.syncMagic

theorem synchronize_again (again : pipe.synchronize.again = true) :
    pipe.synchronize.pipe.messageReceived.toNat ≤ pipe.messageReceived.toNat ∧
      pipe.synchronize.pipe.Synchronized := by
  rw [synchronize] at again ⊢
  split_ifs at again ⊢ with other starts lower same waiting
  · exact ⟨le_rfl, fun begun => absurd starts begun⟩
  · exact ⟨le_rfl, fun begun => absurd starts begun⟩
  · have found := tryReestablish_again again
    exact ⟨found.1, fun _ => found.2⟩
  all_goals exact ⟨le_rfl, fun _ => not_not.mp other⟩

theorem turn_eq_some (comes : pipe.turn = some frame) :
    SIZE ≤ pipe.messageReceived.toNat ∧ pipe.synchronize.again = true ∧
      frame = pipe.synchronize.pipe := by
  rw [turn] at comes
  split_ifs at comes with runt again
  cases comes
  exact ⟨not_lt.mp runt, again, rfl⟩

/-- What `handleMessage` does where a frame's turn comes -/
theorem handleMessage_of_turn (receiver : Receiver) (comes : pipe.turn = some frame) :
    (pipe.handleMessage receiver).again = (frame.handleFrame receiver).again ∧
      (pipe.handleMessage receiver).pipe = (frame.handleFrame receiver).pipe ∧
      ((∀ action ∈ (pipe.handleMessage receiver).actions, action.Inside) ↔
        ∀ action ∈ (frame.handleFrame receiver).actions, action.Inside) := by
  have synchronized := actions_synchronize_inside pipe
  rcases turn_eq_some comes with ⟨long, again, rfl⟩
  have size : ¬pipe.messageReceived < BitVec.ofNat 32 SIZE := not_lt.mpr long
  simp only [handleMessage, if_neg size, again, if_true, List.mem_append]
  refine ⟨trivial, trivial, fun all action member => all action (Or.inr member), ?_⟩
  rintro all action ((greeting | earlier) | member)
  · split_ifs at greeting
    · rw [List.mem_singleton.mp greeting]
      trivial
    · cases greeting
  · exact synchronized action earlier
  · exact all action member

/-- What `handleMessage` does where no frame's turn comes -/
theorem handleMessage_of_no_turn (receiver : Receiver) (comes : pipe.turn = none) :
    (pipe.handleMessage receiver).again = false ∧
      ∀ action ∈ (pipe.handleMessage receiver).actions, action.Inside := by
  have synchronized := actions_synchronize_inside pipe
  rw [turn] at comes
  split_ifs at comes with runt again
  · simp only [handleMessage, if_pos runt]
    exact ⟨trivial, by simp⟩
  · simp only [handleMessage, if_neg runt, if_neg again, List.mem_append]
    refine ⟨trivial, ?_⟩
    rintro action (greeting | earlier)
    · split_ifs at greeting
      · rw [List.mem_singleton.mp greeting]
        trivial
      · cases greeting
    · exact synchronized action earlier

/-! ## The loop -/

theorem handleLoop_succ (receiver : Receiver) (fuel : ℕ) (pipe : PipeInterface) :
    handleLoop receiver (fuel + 1) pipe =
      if (pipe.handleMessage receiver).again = true then
        (handleLoop receiver fuel (pipe.handleMessage receiver).pipe).map fun rest =>
          (rest.1, (pipe.handleMessage receiver).actions ++ rest.2)
      else some ((pipe.handleMessage receiver).pipe, (pipe.handleMessage receiver).actions) :=
  rfl

/-- A state that the loop comes to is the first, or one that it comes to behind a step. -/
theorem Comes.head {reader : PipeInterface} (comes : Comes receiver pipe reader) :
    reader = pipe ∨ (pipe.handleMessage receiver).again = true ∧
      Comes receiver (pipe.handleMessage receiver).pipe reader := by
  induction comes with
  | start => exact .inl rfl
  | again _ more ih =>
      rcases ih with rfl | ⟨first, later⟩
      · exact .inr ⟨more, .start⟩
      · exact .inr ⟨first, later.again more⟩

theorem Comes.tail {reader : PipeInterface} (more : (pipe.handleMessage receiver).again = true)
    (later : Comes receiver (pipe.handleMessage receiver).pipe reader) :
    Comes receiver pipe reader := by
  induction later with
  | start => exact Comes.start.again more
  | again _ further ih => exact ih.again further

/-- The loop keeps inside where each of its steps does. -/
theorem handleLoop_inside_iff {fuel : ℕ} {result : PipeInterface × List Action}
    (ends : handleLoop receiver fuel pipe = some result) :
    (∀ action ∈ result.2, action.Inside) ↔ ∀ reader, Comes receiver pipe reader →
      ∀ action ∈ (reader.handleMessage receiver).actions, action.Inside := by
  induction fuel generalizing pipe result with
  | zero => cases ends
  | succ fuel ih =>
      rw [handleLoop_succ] at ends
      split_ifs at ends with more
      · rcases Option.map_eq_some_iff.mp ends with ⟨rest, later, rfl⟩
        simp only [List.mem_append]
        constructor
        · intro all reader comes
          rcases comes.head with rfl | ⟨-, further⟩
          · exact fun action member => all action (Or.inl member)
          · exact (ih later).mp (fun action member => all action (Or.inr member)) reader further
        · rintro all action (first | member)
          · exact all pipe .start action first
          · have behind := fun reader further => all reader (Comes.tail more further)
            exact (ih later).mpr behind action member
      · cases ends
        constructor
        · intro all reader comes
          rcases comes.head with rfl | ⟨again, -⟩
          · exact all
          · exact absurd again more
        · exact fun all => all pipe .start

/-- Where the loop ends, it ends from every state that it comes to. -/
theorem handleLoop_of_comes {fuel : ℕ} {reader : PipeInterface}
    (ends : (handleLoop receiver fuel pipe).isSome) (comes : Comes receiver pipe reader) :
    ∃ further, (handleLoop receiver further reader).isSome := by
  induction fuel generalizing pipe with
  | zero => cases ends
  | succ fuel ih =>
      rcases comes.head with rfl | ⟨more, later⟩
      · exact ⟨fuel + 1, ends⟩
      · rw [handleLoop_succ, if_pos more, Option.isSome_map] at ends
        exact ih ends later

/-- A proper frame makes what was received less. -/
theorem length_lt_of_proper (comes : pipe.turn = some frame)
    (proper : frame.Proper receiver True)
    (more : (frame.handleFrame receiver).again = true) :
    (frame.handleFrame receiver).pipe.messageReceived.toNat < pipe.messageReceived.toNat := by
  rcases turn_eq_some comes with ⟨long, again, rfl⟩
  have size : SIZE = 16 := rfl
  have less := (synchronize_again again).1
  rcases handleFrame_again more with ⟨fits, left⟩
  rcases proper with runt | ⟨-, short⟩
  · exact absurd fits (not_le.mpr runt)
  · rw [left]
    by_cases empty : pipe.synchronize.pipe.frameLength = 0
    · have := short trivial empty
      omega
    · have positive : pipe.synchronize.pipe.frameLength.toNat ≠ 0 := fun zero =>
        empty (BitVec.eq_of_toNat_eq zero)
      omega

/-- Where all frames are proper, the loop ends. -/
theorem handleLoop_ends (proper : ∀ reader frame, Comes receiver pipe reader →
      reader.turn = some frame → frame.Proper receiver True) :
    ∃ fuel, (handleLoop receiver fuel pipe).isSome := by
  induction size : pipe.messageReceived.toNat using Nat.strong_induction_on generalizing pipe with
  | _ received ih =>
      by_cases more : (pipe.handleMessage receiver).again = true
      · cases comes : pipe.turn with
        | none =>
            rw [(handleMessage_of_no_turn receiver comes).1] at more
            cases more
        | some frame =>
            rcases handleMessage_of_turn receiver comes with ⟨again, next, -⟩
            have less := length_lt_of_proper comes (proper pipe frame .start comes) (again ▸ more)
            rw [← next] at less
            rcases ih _ (size ▸ less) (fun reader frame later =>
              proper reader frame (later.tail more)) rfl with ⟨fuel, ends⟩
            exact ⟨fuel + 1, by rw [handleLoop_succ, if_pos more, Option.isSome_map]; exact ends⟩
      · exact ⟨1, by rw [handleLoop_succ, if_neg more]; rfl⟩

/-! ## A frame without length -/

/-- The first frame has no length, and its turn comes. -/
structure Stuck (pipe : PipeInterface) : Prop where
  long : SIZE ≤ pipe.messageReceived.toNat
  empty : pipe.frameLength = 0
  synchronized : pipe.Synchronized

theorem Stuck.synchronize (stuck : pipe.Stuck) :
    pipe.synchronize.again = true ∧ pipe.synchronize.pipe.Stuck := by
  rw [PipeInterface.synchronize]
  split_ifs with other starts lower same waiting
  · exact ⟨rfl, stuck.long, stuck.empty, fun begun => absurd starts begun⟩
  · exact ⟨rfl, stuck⟩
  · exact absurd (stuck.synchronized starts) other
  · exact ⟨rfl, stuck.long, stuck.empty, fun _ => not_not.mp other⟩
  · exact ⟨rfl, stuck.long, stuck.empty, stuck.synchronized⟩
  · exact ⟨rfl, stuck⟩

/-- The frame is there again behind itself. -/
theorem Stuck.handleFrame (stuck : frame.Stuck) :
    (frame.handleFrame receiver).again = true ∧ (frame.handleFrame receiver).pipe.Stuck := by
  have size : SIZE = 16 := rfl
  have long := stuck.long
  have fits : ¬frame.messageReceived < frame.frameLength := by
    rw [stuck.empty]
    exact not_lt.mpr (Nat.zero_le _)
  have left : frame.messageReceived - frame.frameLength = frame.messageReceived := by
    rw [stuck.empty]
    exact BitVec.sub_zero _
  have some : frame.messageReceived - frame.frameLength ≠ 0 := by
    rw [left]
    intro zero
    rw [zero] at long
    exact absurd long (by decide)
  -- whoever gets a message of a negative length has nothing of the buffer to write to
  have given : ∀ place : ℤ, 0 ≤ place →
      (frame.give receiver 0).message place = frame.message place := by
    intro place lower
    rw [give]
    split_ifs
    · rfl
    · rcases receiver with _ | overwrites
      · rfl
      · have negative : (0 - BitVec.ofNat 32 SIZE : BitVec 32).toInt = -16 := by decide
        simp only [handleData, negative]
        rw [if_neg (by omega)]
    · rfl
  have same : ∀ place : ℤ, 0 ≤ place →
      (frame.handleFrame receiver).pipe.message place = frame.message place := by
    intro place lower
    rw [PipeInterface.handleFrame, dif_neg fits]
    dsimp only
    rw [if_pos some]
    have start : ((0 : BitVec 32).toNat : ℤ) = 0 := rfl
    simp only [memmove, stuck.empty, start, add_zero]
    rw [given place lower, ite_self]
  have others : (frame.handleFrame receiver).again = true ∧
      (frame.handleFrame receiver).pipe.messageReceived = frame.messageReceived ∧
      (frame.handleFrame receiver).pipe.state = frame.state ∧
      (frame.handleFrame receiver).pipe.syncMagic = frame.syncMagic := by
    rw [PipeInterface.handleFrame, dif_neg fits]
    dsimp only
    rw [if_pos some]
    exact ⟨rfl, left, rfl, rfl⟩
  refine ⟨others.1, by rw [others.2.1]; exact long, ?_, ?_⟩
  · rw [frameLength, headerLength, Memory.load_congr fun place lower _ => same place (by omega)]
    exact stuck.empty
  · rw [Synchronized, others.2.2.1, others.2.2.2, headerMagic,
      Memory.load_congr fun place lower _ => same place (by omega)]
    exact stuck.synchronized

theorem Stuck.handleMessage (stuck : pipe.Stuck) :
    (pipe.handleMessage receiver).again = true ∧ (pipe.handleMessage receiver).pipe.Stuck := by
  have comes : pipe.turn = some pipe.synchronize.pipe := by
    have long : ¬pipe.messageReceived < BitVec.ofNat 32 SIZE := not_lt.mpr stuck.long
    rw [turn, if_neg long, if_pos stuck.synchronize.1]
  rcases handleMessage_of_turn receiver comes with ⟨again, next, -⟩
  rw [again, next]
  exact stuck.synchronize.2.handleFrame

theorem Stuck.handleLoop_eq_none (stuck : pipe.Stuck) (fuel : ℕ) :
    handleLoop receiver fuel pipe = none := by
  induction fuel generalizing pipe with
  | zero => rfl
  | succ fuel ih =>
      rw [handleLoop_succ, if_pos stuck.handleMessage.1, ih stuck.handleMessage.2]
      rfl

/-- A frame that is not proper does harm, where its turn comes in the loop. -/
theorem proper_of_comes {fuel : ℕ} {result : PipeInterface × List Action}
    (ends : handleLoop receiver fuel pipe = some result)
    (inside : ∀ action ∈ result.2, action.Inside) {reader : PipeInterface}
    (comes : Comes receiver pipe reader) (here : reader.turn = some frame) :
    frame.Proper receiver True := by
  rcases handleMessage_of_turn receiver here with ⟨again, next, actions⟩
  have kept := (actions_handleFrame_inside_iff receiver frame).mp
    (actions.mp ((handleLoop_inside_iff ends).mp inside reader comes))
  rcases kept with runt | data
  · exact .inl runt
  · refine .inr ⟨data, fun _ empty => ?_⟩
    by_contra long
    rcases turn_eq_some here with ⟨-, synchronized, rfl⟩
    have stuck : reader.synchronize.pipe.Stuck :=
      ⟨not_lt.mp long, empty, (synchronize_again synchronized).2⟩
    have later : Comes receiver pipe (reader.handleMessage receiver).pipe :=
      comes.again (by rw [again]; exact stuck.handleFrame.1)
    rcases handleLoop_of_comes (by rw [ends]; rfl) later with ⟨further, some⟩
    rw [next, stuck.handleFrame.2.handleLoop_eq_none] at some
    cases some

theorem handleMessage_inside_iff (receiver : Receiver) (pipe : PipeInterface) :
    (∀ action ∈ (pipe.handleMessage receiver).actions, action.Inside) ↔
      ∀ frame, pipe.turn = some frame → frame.Proper receiver False := by
  cases comes : pipe.turn with
  | none =>
      refine iff_of_true (handleMessage_of_no_turn receiver comes).2 (fun frame none => ?_)
      cases none
  | some frame =>
      rw [(handleMessage_of_turn receiver comes).2.2, actions_handleFrame_inside_iff]
      simp only [Option.some.injEq, forall_eq', Proper, false_implies, and_true]

/-- The reader ends inside exactly where every frame is proper whose turn it comes to be. -/
theorem endsInside_iff (receiver : Receiver) (available : List (BitVec 8))
    (pipe : PipeInterface) :
    EndsInside receiver available pipe ↔ Orderly receiver available pipe := by
  rw [EndsInside, Orderly]
  by_cases lost : pipe.state = .LOST
  · simp only [handleEvent, if_pos lost, Option.some.injEq]
    have whole : (∃ fuel : ℕ, ∃ result, pipe.getMessageDesynced receiver available = result ∧
        result.1.messageReceived.toNat ≤ MAX_MESSAGE_SIZE ∧ ∀ action ∈ result.2, action.Inside) ↔
        ∀ action ∈ (pipe.getMessageDesynced receiver available).2, action.Inside := by
      constructor
      · rintro ⟨-, result, rfl, -, inside⟩
        exact inside
      · exact fun inside => ⟨0, _, rfl, PipeInterface.bounded _, inside⟩
    rw [whole, getMessageDesynced]
    have first := actions_tryReestablish_inside (pipe.doRead 0 available (Nat.zero_le _))
    generalize (pipe.doRead 0 available (Nat.zero_le _)).tryReestablish = found at *
    by_cases again : found.again = true
    · simp only [again, if_true, List.mem_append, true_implies]
      rw [← handleMessage_inside_iff]
      constructor
      · exact fun all action member => all action (Or.inr member)
      · rintro all action (earlier | member)
        · exact first action earlier
        · exact all action member
    · simp only [if_neg again]
      exact iff_of_true first (fun frame more => absurd more again)
  · simp only [handleEvent, if_neg lost, getMessage]
    constructor
    · rintro ⟨fuel, result, ends, -, inside⟩ reader frame comes here
      rcases Option.map_eq_some_iff.mp ends with ⟨rest, looped, rfl⟩
      exact proper_of_comes looped inside comes here
    · intro orderly
      rcases handleLoop_ends orderly with ⟨fuel, ends⟩
      rcases Option.isSome_iff_exists.mp ends with ⟨rest, looped⟩
      refine ⟨fuel, _, by rw [looped]; rfl, PipeInterface.bounded _, ?_⟩
      refine (handleLoop_inside_iff looped).mpr fun reader comes => ?_
      rw [handleMessage_inside_iff]
      intro frame here
      rcases orderly reader frame comes here with runt | ⟨data, -⟩
      · exact .inl runt
      · exact .inr ⟨data, fun never => absurd never id⟩

/-- A ping with the length 2^32 - 16 is answered for ever. -/
theorem ping_for_ever :
    let ping : List (BitVec 8) := [0, 0, 0, 0, 0, 0, 0, 0, 0, 0, 0, 0, 0xF0, 0xFF, 0xFF, 0xFF]
    (∀ fuel, established.handleEvent none fuel ping = none) ∧
      ¬EndsInside none ping established := by
  intro ping
  have stuck : (established.doRead 0 ping (Nat.zero_le _)).Stuck :=
    ⟨by decide +kernel, by decide +kernel, fun _ => by decide +kernel⟩
  have never (fuel : ℕ) : established.handleEvent none fuel ping = none := by
    have looped := @Stuck.handleLoop_eq_none none _ stuck fuel
    rw [handleEvent, if_neg (by decide), getMessage]
    exact Option.map_eq_none_iff.mpr looped
  refine ⟨never, ?_⟩
  rintro ⟨fuel, result, ends, -⟩
  rw [never] at ends
  cases ends

end Cjdns.PipeInterface
