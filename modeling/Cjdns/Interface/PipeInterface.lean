import Cjdns.Library.Memory

/-!
# The pipe interface

Messages in frames over a pipe. The reader keeps what it has read in one buffer, takes the frames
from its start, and moves the rest down. The message that is handed on is a part of the buffer,
and whoever gets it may write to it and to the padding in front of it.
-/

namespace Cjdns

namespace PipeInterface

/-- `enum PipeInterface_State` -/
inductive State where
  | INITIALIZING
  | ESTABLISHED
  | LOST
deriving DecidableEq

/-- `FramedMessageType_PING` -/
abbrev PING : BitVec 32 := 0

/-- `FramedMessageType_PONG` -/
abbrev PONG : BitVec 32 := 1

/-- `FramedMessageType_DATA` -/
abbrev DATA : BitVec 32 := 2

/-- `FramedMessage_SIZE` -/
abbrev SIZE : ℕ := 16

/-- `PipeInterface_MAX_MESSAGE_SIZE` -/
abbrev MAX_MESSAGE_SIZE : ℕ := 65535

end PipeInterface

/-- `struct PipeInterface_pvt` -/
structure PipeInterface where
  state : PipeInterface.State
  syncMagic : BitVec 64
  /-- `message`, with the first of `as.bytes` at zero -/
  message : Memory
  messageReceived : BitVec 32
  isWaiting : Bool
  /-- The number of the calls of `receiveMessage` -/
  delivered : ℕ
  bounded : messageReceived.toNat ≤ PipeInterface.MAX_MESSAGE_SIZE

namespace PipeInterface

/-- What the interface does to anything but itself, and what it moves within its buffer -/
inductive Action where
  /-- `sendEmpty` -/
  | sendEmpty (type : BitVec 32) (syncMagic : BitVec 64)
  /-- `receiveMessage`, of so many bytes behind the header, with so many bytes in the buffer -/
  | receiveMessage (length : ℤ) (received : ℕ) (payload : List (BitVec 8))
  /-- `Bits_memmove`, to the start of the buffer -/
  | memmove (source count : ℕ)
  /-- `EventBase_endLoop` -/
  | endLoop
deriving DecidableEq

/-- `generic.receiveMessage`, if there is one: what it leaves in memory the n-th time -/
abbrev Receiver := Option (ℕ → Memory)

/-- The buffer, when so many bytes are moved to its start -/
def memmove (source count : ℕ) (message : Memory) : Memory := fun place =>
  if 0 ≤ place ∧ place < count then message (place + source) else message place

/-- `Bits_memmem`, from the start of the buffer on -/
def memmem (haystack : Memory) (needle : BitVec 64) (haystackLen : ℕ) : Option ℕ :=
  (List.range (haystackLen + 1 - 8)).find? fun place => haystack.load place 64 = needle

variable (pipe : PipeInterface)

/-- `header.syncMagic` -/
def headerMagic : BitVec 64 :=
  pipe.message.load 0 64

/-- `header.type` -/
def headerType : BitVec 32 :=
  pipe.message.load 8 32

/-- `header.length` -/
def headerLength : BitVec 32 :=
  pipe.message.load 12 32

/-- What a part of the reader comes to: whether to go on, the interface, and what was done -/
structure Handled where
  again : Bool
  pipe : PipeInterface
  actions : List Action

/-- `tryReestablish` -/
def tryReestablish : Handled :=
  match memmem pipe.message pipe.syncMagic pipe.messageReceived.toNat with
  | some nextFrame =>
      let newLength := pipe.messageReceived.toNat - nextFrame
      { again := true
        pipe := { pipe with
          message := memmove nextFrame newLength pipe.message
          messageReceived := BitVec.ofNat 32 newLength
          state := .ESTABLISHED
          bounded := by
            rw [BitVec.toNat_ofNat]
            exact le_trans (Nat.mod_le _ _) (le_trans (Nat.sub_le _ _) pipe.bounded) }
        actions := [.memmove nextFrame newLength] }
  | none => ⟨false, pipe, []⟩

/-- The part of `handleMessage` that compares the magic -/
def synchronize : Handled :=
  if pipe.headerMagic ≠ pipe.syncMagic then
    if pipe.state = .INITIALIZING then
      ⟨true, if pipe.headerMagic < pipe.syncMagic then { pipe with syncMagic := pipe.headerMagic }
        else pipe, []⟩
    else
      let handled := ({ pipe with state := .LOST } : PipeInterface).tryReestablish
      { handled with actions := handled.actions ++ [.sendEmpty PING handled.pipe.syncMagic] }
  else if pipe.state = .INITIALIZING then ⟨true, { pipe with state := .ESTABLISHED }, []⟩
  else if pipe.isWaiting then ⟨true, { pipe with isWaiting := false }, [.endLoop]⟩
  else ⟨true, pipe, []⟩

/-- What becomes of a frame: the buffer, the count of the messages, and what was done -/
structure Given where
  message : Memory
  delivered : ℕ
  actions : List Action

/-- `handleData` -/
def handleData (receiver : Receiver) (length : BitVec 32) : Given :=
  match receiver with
  | none => ⟨pipe.message, pipe.delivered, []⟩
  | some overwrites => {
      message := fun place =>
        if place < SIZE + length.toInt then overwrites pipe.delivered place else pipe.message place
      delivered := pipe.delivered + 1
      actions := [.receiveMessage length.toInt pipe.messageReceived.toNat
        (pipe.message.read SIZE length.toInt.toNat)] }

/-- The part of `handleMessage` that looks at the type -/
def give (receiver : Receiver) (length : BitVec 32) : Given :=
  if pipe.headerType = PING then
    ⟨pipe.message, pipe.delivered, [.sendEmpty PONG pipe.syncMagic]⟩
  else if pipe.headerType = DATA then pipe.handleData receiver (length - BitVec.ofNat 32 SIZE)
  else ⟨pipe.message, pipe.delivered, []⟩

/-- The length of a frame with its header -/
def frameLength : BitVec 32 :=
  pipe.headerLength + BitVec.ofNat 32 SIZE

/-- The part of `handleMessage` behind the comparison of the magic -/
def handleFrame (receiver : Receiver) : Handled :=
  if runt : pipe.messageReceived < pipe.frameLength then ⟨false, pipe, []⟩
  else
    let remainingLength := pipe.messageReceived - pipe.frameLength
    let given := pipe.give receiver pipe.frameLength
    let after : PipeInterface := { pipe with
      message := given.message
      delivered := given.delivered
      messageReceived := remainingLength
      bounded := by
        rw [BitVec.toNat_sub_of_le (BitVec.not_lt.mp runt)]
        exact le_trans (Nat.sub_le _ _) pipe.bounded }
    if remainingLength ≠ 0 then {
      again := true
      pipe := { after with
        message := memmove pipe.frameLength.toNat remainingLength.toNat given.message }
      actions := given.actions ++ [.memmove pipe.frameLength.toNat remainingLength.toNat] }
    else ⟨false, after, given.actions⟩

/-- `handleMessage` -/
def handleMessage (receiver : Receiver) : Handled :=
  if pipe.messageReceived < BitVec.ofNat 32 SIZE then ⟨false, pipe, []⟩
  else
    let greeting : List Action :=
      if pipe.state = .INITIALIZING ∧ pipe.headerType = PONG then
        [.sendEmpty PING pipe.syncMagic]
      else []
    let synchronized := pipe.synchronize
    if synchronized.again then
      let handled := synchronized.pipe.handleFrame receiver
      { handled with actions := greeting ++ synchronized.actions ++ handled.actions }
    else ⟨false, synchronized.pipe, greeting ++ synchronized.actions⟩

/-- The loop of `getMessage`; the actions so far come first -/
def handleLoop (receiver : Receiver) : ℕ → PipeInterface → Option (PipeInterface × List Action)
  | 0, _ => none
  | fuel + 1, pipe =>
      let handled := pipe.handleMessage receiver
      if handled.again then
        (handleLoop receiver fuel handled.pipe).map fun rest => (rest.1, handled.actions ++ rest.2)
      else some (handled.pipe, handled.actions)

/-- `doRead`, behind the bytes that are there: what is in the pipe, as far as there is room -/
def doRead (received : BitVec 32) (available : List (BitVec 8))
    (inside : received.toNat ≤ MAX_MESSAGE_SIZE) : PipeInterface :=
  let amount := (available.take (MAX_MESSAGE_SIZE - received.toNat)).length
  { pipe with
    message := pipe.message.write received.toNat
      (available.take (MAX_MESSAGE_SIZE - received.toNat))
    messageReceived := received + BitVec.ofNat 32 amount
    bounded := by
      have short : amount ≤ MAX_MESSAGE_SIZE - received.toNat := List.length_take_le _ _
      rw [BitVec.toNat_add, BitVec.toNat_ofNat, Nat.add_mod_mod]
      refine le_trans (Nat.mod_le _ _) ?_
      omega }

/-- `getMessage` -/
def getMessage (receiver : Receiver) (fuel : ℕ) (available : List (BitVec 8)) :
    Option (PipeInterface × List Action) :=
  let read := pipe.doRead pipe.messageReceived available pipe.bounded
  (handleLoop receiver fuel read).map fun handled =>
    (if pipe.state = .INITIALIZING then
      { handled.1 with messageReceived := 0, bounded := Nat.zero_le _ }
    else handled.1, handled.2)

/-- `getMessageDesynced` -/
def getMessageDesynced (receiver : Receiver) (available : List (BitVec 8)) :
    PipeInterface × List Action :=
  let found := (pipe.doRead 0 available (Nat.zero_le _)).tryReestablish
  if found.again then
    let handled := found.pipe.handleMessage receiver
    (handled.pipe, found.actions ++ handled.actions)
  else (found.pipe, found.actions)

/-- `handleEvent`, which gets no further where the fuel does not last -/
def handleEvent (receiver : Receiver) (fuel : ℕ) (available : List (BitVec 8)) :
    Option (PipeInterface × List Action) :=
  if pipe.state = .LOST then some (pipe.getMessageDesynced receiver available)
  else pipe.getMessage receiver fuel available

/-- An established interface with an empty buffer, whose magic is zero -/
def established : PipeInterface where
  state := .ESTABLISHED
  syncMagic := 0
  message := fun _ => 0
  messageReceived := 0
  isWaiting := false
  delivered := 0
  bounded := Nat.zero_le _

/-! ## The buffer -/

variable {pipe}

theorem read_memmove {source count length : ℕ} {place : ℤ} (message : Memory) (lower : 0 ≤ place)
    (upper : place + length ≤ count) :
    (memmove source count message).read place length = message.read (place + source) length := by
  apply List.map_congr_left
  intro index inside
  rw [List.mem_range] at inside
  rw [memmove, if_pos (by omega)]
  congr 1
  omega

theorem load_memmove {source count width : ℕ} {place : ℤ} (bytes : ℕ) (message : Memory)
    (lower : 0 ≤ place) (upper : place + bytes ≤ count) (spans : width ≤ 8 * bytes) :
    (memmove source count message).load place width = message.load (place + source) width :=
  Memory.load_eq_of_read_eq bytes (read_memmove message lower upper) spans

/-- Where the search finds something, it is there. -/
theorem memmem_eq_some {haystack : Memory} {needle : BitVec 64} {haystackLen place : ℕ}
    (found : memmem haystack needle haystackLen = some place) :
    place + 8 ≤ haystackLen ∧ haystack.load place 64 = needle := by
  have inside := List.mem_range.mp (List.mem_of_find?_eq_some found)
  exact ⟨by omega, by simpa using List.find?_some found⟩

/-- Behind a frame with the magic, synchronization is back. -/
theorem tryReestablish_again (again : pipe.tryReestablish.again = true) :
    pipe.tryReestablish.pipe.messageReceived.toNat ≤ pipe.messageReceived.toNat ∧
      pipe.tryReestablish.pipe.headerMagic = pipe.tryReestablish.pipe.syncMagic := by
  rw [tryReestablish] at again ⊢
  cases found : memmem pipe.message pipe.syncMagic pipe.messageReceived.toNat with
  | none =>
      rw [found] at again
      cases again
  | some place =>
      rcases memmem_eq_some found with ⟨inside, there⟩
      refine ⟨?_, ?_⟩
      · dsimp only
        rw [BitVec.toNat_ofNat]
        exact le_trans (Nat.mod_le _ _) (Nat.sub_le _ _)
      · rw [headerMagic]
        dsimp only
        rw [load_memmove 8 _ le_rfl (by omega) le_rfl, zero_add, there]

end PipeInterface

end Cjdns
