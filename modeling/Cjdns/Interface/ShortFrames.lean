import Cjdns.Interface.ETHInterface
import Cjdns.Wire.Message

/-!
# Short frames

`handleEvent` of `ETHInterface_Linux.c` takes the length of a message from the number of bytes that
came in and from the padding that the sender claims, and compares neither with anything. The length
may be negative. Whoever takes the address off the message fails an assertion then, or if there is
less left than an address.
-/

namespace Cjdns

/-- `struct Message`, whose length may be negative -/
structure SignedMessage where
  memory : Memory
  length : ℤ
  padding : ℤ
  bytes : ℤ

namespace SignedMessage

/-- `Message_shift`; there is no result where its assertion fails, here and below. -/
def shift (amount : ℤ) (toShift : SignedMessage) : Option SignedMessage :=
  let shifted : SignedMessage :=
    { toShift with
      length := toShift.length + amount
      bytes := toShift.bytes - amount
      padding := toShift.padding - amount }
  if 0 < amount then if amount ≤ toShift.padding then some shifted else none
  else if -amount ≤ toShift.length then some shifted else none

/-- `Message_push` -/
def push (object : List (BitVec 8)) (msg : SignedMessage) : Option SignedMessage :=
  (msg.shift object.length).map fun msg =>
    { msg with memory := msg.memory.write msg.bytes object }

/-- A message whose length is not negative -/
def ofMessage (message : Message) : SignedMessage where
  memory := message.memory
  length := message.length
  padding := message.padding
  bytes := message.bytes

end SignedMessage

namespace ETHInterface

/-- `Headers_Beacon_SIZE` -/
abbrev Headers_Beacon_SIZE : ℕ := 56

/-- The buffer of an interface, with what earlier frames have left in it, and a frame -/
structure Incoming where
  messageBuff : ℤ
  memory : Memory
  frame : Frame

namespace Incoming

/-- How many bytes `recvfrom` has put into the buffer -/
def rc (incoming : Incoming) : ℕ :=
  incoming.frame.received.length

/-- The message before the address is pushed, with the id -/
structure Stripped where
  message : SignedMessage
  id : BitVec 16

/-- `handleEvent` up to where the id and the padding are known -/
def strip (incoming : Incoming) : Option Stripped :=
  let message : SignedMessage :=
    { memory := incoming.memory
      length := MAX_PACKET_SIZE
      padding := PADDING
      bytes := incoming.messageBuff + PADDING }
  (message.shift 2).bind fun message =>
    let received := incoming.frame.payload.take message.length.toNat
    let rc : ℤ := received.length
    let message := { message with memory := message.memory.write message.bytes received }
    let idAndPadding_be := message.memory.load message.bytes 16
    (message.shift (-2)).map fun message =>
      let idAndPadding := Endian.bigEndianToHost16 idAndPadding_be
      { message := { message with length := rc - 2 - (idAndPadding &&& 7).toNat * 8 }
        id := idAndPadding >>> 3 }

/-- `handleEvent`, with the message that it hands on -/
def handleEvent (incoming : Incoming) : Option SignedMessage :=
  incoming.strip.bind fun stripped =>
    (stripped.message.push (littleEndian 2 stripped.id)).bind fun message =>
      message.push incoming.frame.source.toList

/-- `addr.sll_pkttype == PACKET_BROADCAST` -/
def Broadcast (incoming : Incoming) : Prop :=
  incoming.frame.dest = Mac.broadcast

instance (incoming : Incoming) : Decidable incoming.Broadcast :=
  inferInstanceAs (Decidable (_ = _))

end Incoming

/-- What `handleBeacon` does with a message -/
inductive Beacon where
  | disabled
  | wrongSize
  /-- The message begins with a `struct Headers_Beacon`. -/
  | beacon (msg : SignedMessage)

/-- `handleBeacon`, up to where it looks into the beacon -/
def handleBeacon (beaconState : BitVec 32) (msg : SignedMessage) : Option Beacon :=
  if beaconState = 0 then some .disabled
  else (msg.shift (-8)).map fun msg =>
    if msg.length < (Headers_Beacon_SIZE : ℤ) then .wrongSize else .beacon msg

/-- `receiveMessage` of `MultiInterface.c`, up to where the key is taken off -/
def takeKey (keySize : ℕ) (msg : SignedMessage) : Option SignedMessage :=
  (msg.push (littleEndian 4 (BitVec.ofNat 32 keySize))).bind fun msg =>
    msg.shift (-(keySize + 4))

namespace Incoming

/-- The length is not negative, and the content is in the bytes that came in and the eight bytes of
the address that were pushed. -/
structure Sound (incoming : Incoming) (msg : SignedMessage) : Prop where
  length : 0 ≤ msg.length
  content : ∀ place, msg.bytes ≤ place → place < msg.bytes + msg.length →
    incoming.messageBuff + PADDING - 8 ≤ place ∧ place < incoming.messageBuff + PADDING ∨
      incoming.messageBuff + PADDING - 2 ≤ place ∧
        place < incoming.messageBuff + PADDING - 2 + incoming.rc

/-- A frame is dropped, or is handed on as a sound message off which the address can be taken. -/
def Harmless (eth : ETHInterface) (beaconState : BitVec 32) (incoming : Incoming) : Prop :=
  ∃ msg, incoming.handleEvent = some msg ∧
    if incoming.Broadcast then
      handleBeacon beaconState msg = some .disabled ∨
        incoming.Sound msg ∧ (handleBeacon beaconState msg).isSome
    else incoming.Sound msg ∧ (takeKey eth.multiIface.keySize msg).isSome

/-- The second byte of a frame. A frame without one shows what was in the buffer. -/
def secondByte (incoming : Incoming) : BitVec 8 :=
  incoming.frame.received.getD 1 (incoming.memory (incoming.messageBuff + PADDING - 1))

/-- How many bytes of padding the frame is said to have -/
def padding (incoming : Incoming) : ℕ :=
  incoming.secondByte.toNat % 8 * 8

end Incoming

end ETHInterface

/-! ## Shifts -/

namespace SignedMessage

/-- Where no length is negative, a shift is what it is for other messages. -/
theorem shift_ofMessage (message : Message) (amount : ℤ) :
    (ofMessage message).shift amount = (message.shift amount).map ofMessage := by
  rw [shift, Message.shift]
  by_cases grows : 0 < amount
  · by_cases fits : amount ≤ message.padding
    · simp [ofMessage, grows, fits]
      omega
    · simp [ofMessage, grows, fits]
  · by_cases fits : -amount ≤ message.length
    · simp [ofMessage, grows, fits]
      omega
    · simp [ofMessage, grows, fits]

theorem shift_pos (msg : SignedMessage) {amount : ℤ} (grows : 0 < amount)
    (fits : amount ≤ msg.padding) : msg.shift amount =
      some { msg with
        length := msg.length + amount
        bytes := msg.bytes - amount
        padding := msg.padding - amount } := by
  rw [shift, if_pos grows, if_pos fits]

theorem shift_neg (msg : SignedMessage) {amount : ℤ} (shrinks : 0 ≤ amount)
    (fits : amount ≤ msg.length) : msg.shift (-amount) =
      some { msg with
        length := msg.length - amount
        bytes := msg.bytes + amount
        padding := msg.padding + amount } := by
  rw [shift, if_neg (by omega), neg_neg, if_pos fits, sub_neg_eq_add, sub_neg_eq_add,
    ← sub_eq_add_neg]

/-- What is taken off must be there. -/
theorem isSome_shift_neg (msg : SignedMessage) {amount : ℤ} (shrinks : 0 ≤ amount) :
    (msg.shift (-amount)).isSome ↔ amount ≤ msg.length := by
  rw [shift, if_neg (by omega), neg_neg]
  split_ifs with fits
  · simp [fits]
  · simp [fits]

theorem push_eq (msg : SignedMessage) {object : List (BitVec 8)} (something : 0 < object.length)
    (fits : (object.length : ℤ) ≤ msg.padding) : msg.push object =
      some
        { memory := msg.memory.write (msg.bytes - object.length) object
          length := msg.length + object.length
          padding := msg.padding - object.length
          bytes := msg.bytes - object.length } := by
  rw [push, shift_pos msg (by omega) fits, Option.map_some]

end SignedMessage

namespace ETHInterface

theorem length_littleEndian {width : ℕ} (count : ℕ) (word : BitVec width) :
    (littleEndian count word).length = count := by
  simp [littleEndian]

namespace Incoming

variable {incoming : Incoming} {eth : ETHInterface} {beaconState : BitVec 32}

/-! ## What is handed on -/

/-- The buffer with the frame in it -/
def filled (incoming : Incoming) : Memory :=
  incoming.memory.write (incoming.messageBuff + PADDING - 2) incoming.frame.received

/-- The words of padding are in the second byte of a word. -/
theorem and_seven (word : BitVec 16) :
    (Endian.bigEndianToHost16 word &&& 7).toNat = (word.extractLsb' 8 8).toNat % 8 := by
  have low : (Endian.bigEndianToHost16 word).setWidth 8 = word.extractLsb' 8 8 := by
    apply BitVec.eq_of_getLsbD_eq
    intro index inside
    have flipped : index ^^^ 8 = 8 + index := by interval_cases index <;> rfl
    rw [BitVec.getLsbD_setWidth, BitVec.getLsbD_extractLsb',
      Endian.getLsbD_byteSwap16 _ (by omega), flipped]
  have digits := congrArg BitVec.toNat low
  rw [BitVec.toNat_setWidth] at digits
  have masked (number : ℕ) : number &&& 7 = number % 8 := Nat.and_two_pow_sub_one_eq_mod number 3
  rw [BitVec.toNat_and]
  change _ &&& 7 = _
  rw [masked]
  omega

/-- The word that is read from the buffer has the second byte of the frame in it. -/
theorem and_idAndPadding (incoming : Incoming) :
    (Endian.bigEndianToHost16 (incoming.filled.load (incoming.messageBuff + PADDING - 2) 16) &&&
      7).toNat * 8 = incoming.padding := by
  have byte : incoming.filled (incoming.messageBuff + PADDING - 2 + 1) = incoming.secondByte := by
    rw [filled, Memory.write, if_pos (by omega), secondByte, List.getD_eq_getElem?_getD]
    congr 2 <;> omega
  have second : (incoming.filled.load (incoming.messageBuff + PADDING - 2) 16).extractLsb' 8 8 =
      incoming.secondByte := by
    apply BitVec.eq_of_getLsbD_eq
    intro index inside
    have place : incoming.messageBuff + PADDING - 2 + ((8 + index : ℕ) : ℤ) / 8 =
        incoming.messageBuff + PADDING - 2 + 1 := by omega
    rw [BitVec.getLsbD_extractLsb', Memory.getLsbD_load _ _ (by omega), place, byte,
      Nat.add_mod_left, Nat.mod_eq_of_lt inside, decide_eq_true inside, Bool.true_and]
  rw [and_seven, second, padding]

theorem strip_eq (incoming : Incoming) : ∃ id, incoming.strip = some
    { message :=
        { memory := incoming.filled
          length := incoming.rc - 2 - incoming.padding
          padding := PADDING
          bytes := incoming.messageBuff + PADDING }
      id := id } := by
  rw [strip, SignedMessage.shift_pos _ (by norm_num) (by norm_num), Option.bind_some]
  have long : (MAX_PACKET_SIZE : ℤ) + 2 = 1498 := rfl
  have word := incoming.and_idAndPadding
  have whole : Int.toNat 1498 = MAX_PACKET_SIZE + 2 := rfl
  simp only [long, whole]
  rw [SignedMessage.shift_neg _ (by norm_num) (by norm_num), Option.map_some]
  refine ⟨_, congrArg some (congrArg₂ Stripped.mk ?_ rfl)⟩
  rw [← word]
  simp [filled, rc, Frame.received]

/-- The message that is handed on -/
theorem handleEvent_eq (incoming : Incoming) : ∃ memory, incoming.handleEvent = some
    { memory := memory
      length := incoming.rc + 6 - incoming.padding
      padding := 504
      bytes := incoming.messageBuff + PADDING - 8 } := by
  rcases incoming.strip_eq with ⟨id, strips⟩
  rw [handleEvent, strips, Option.bind_some, SignedMessage.push_eq _ (by simp [littleEndian])
    (by simp [littleEndian]), Option.bind_some, SignedMessage.push_eq _ (by simp)
    (by simp [length_littleEndian])]
  simp [length_littleEndian]
  omega

/-- A message that is handed on is sound if its length is. -/
theorem sound_iff {msg : SignedMessage} (length : msg.length = incoming.rc + 6 - incoming.padding)
    (bytes : msg.bytes = incoming.messageBuff + PADDING - 8) :
    incoming.Sound msg ↔ 0 ≤ msg.length := by
  refine ⟨fun sound => sound.length, fun positive => ⟨positive, fun place begins ends => ?_⟩⟩
  by_cases pushed : place < incoming.messageBuff + PADDING
  · exact .inl ⟨bytes ▸ begins, pushed⟩
  · refine .inr ⟨by omega, ?_⟩
    rw [bytes, length] at ends
    omega

/-- A beacon is looked at if the message has an address. -/
theorem handleBeacon_iff {msg : SignedMessage} (accepts : beaconState ≠ 0) :
    (handleBeacon beaconState msg).isSome ↔ 8 ≤ msg.length := by
  rw [handleBeacon, if_neg accepts, Option.isSome_map]
  exact msg.isSome_shift_neg (by norm_num)

/-- The key is taken off if the message has one. -/
theorem takeKey_iff {msg : SignedMessage} (keySize : ℕ) (padded : 4 ≤ msg.padding) :
    (takeKey keySize msg).isSome ↔ keySize ≤ msg.length := by
  have four : (littleEndian 4 (BitVec.ofNat 32 keySize)).length = 4 := length_littleEndian ..
  rw [takeKey, SignedMessage.push_eq msg (by rw [four]; norm_num) (by rw [four]; exact padded),
    Option.bind_some, SignedMessage.isSome_shift_neg _ (by omega), four]
  simp only [Nat.cast_ofNat]
  omega

/-- Beacons -/
theorem harmless_of_broadcast (eth : ETHInterface) (broadcast : incoming.Broadcast) :
    incoming.Harmless eth beaconState ↔
      beaconState = 0 ∨ incoming.padding + 2 ≤ incoming.rc := by
  rcases incoming.handleEvent_eq with ⟨memory, handed⟩
  rw [Harmless, handed]
  simp only [Option.some.injEq, exists_eq_left', if_pos broadcast]
  rw [sound_iff rfl rfl]
  by_cases disabled : beaconState = 0
  · simp [handleBeacon, disabled]
  · have accepted (msg : SignedMessage) : handleBeacon beaconState msg ≠ some .disabled := by
      rw [handleBeacon, if_neg disabled]
      intro same
      rcases Option.map_eq_some_iff.mp same with ⟨popped, -, same⟩
      split_ifs at same
    rw [handleBeacon_iff disabled]
    simp only [accepted, disabled, false_or]
    omega

/-- Messages of peers -/
theorem harmless_of_unicast (eth : ETHInterface) (unicast : ¬ incoming.Broadcast) :
    incoming.Harmless eth beaconState ↔ incoming.padding + 14 ≤ incoming.rc := by
  rcases incoming.handleEvent_eq with ⟨memory, handed⟩
  rw [Harmless, handed]
  simp only [Option.some.injEq, exists_eq_left', if_neg unicast]
  rw [sound_iff rfl rfl, takeKey_iff _ (by norm_num), eth.keySize_eq]
  simp only [SockaddrLL.SIZE, Nat.cast_ofNat]
  omega

/-- A frame is harmless exactly if what is left of it without the padding has an address in it, and
the rest of a key unless the frame is a beacon. -/
theorem frame_harmless_iff (eth : ETHInterface) (beaconState : BitVec 32) (incoming : Incoming) :
    incoming.Harmless eth beaconState ↔
      if incoming.Broadcast then beaconState = 0 ∨ incoming.padding + 2 ≤ incoming.rc
      else incoming.padding + 14 ≤ incoming.rc := by
  split_ifs with broadcast
  · exact harmless_of_broadcast eth broadcast
  · exact harmless_of_unicast eth broadcast

/-! ## A frame that is all padding -/

/-- The shortest frame of a device that claims seven words of padding -/
def allPadding : Incoming where
  messageBuff := 0
  memory _ := 0
  frame :=
    { dest := (fresh 7 0x55).mac
      source := (fresh 9 0x66).mac
      payload := [0, 7] ++ List.replicate 44 0 }

/-- The message has less than no bytes, and the key cannot be taken off. -/
theorem padding_beyond_frame :
    (allPadding.handleEvent.map fun msg => msg.length) = some (-4) ∧
      ¬ allPadding.Harmless (fresh 7 0x55) 0 := by
  have unicast : ¬ allPadding.Broadcast := by decide
  have padding : allPadding.padding = 56 := by decide
  have rc : allPadding.rc = 46 := by decide
  constructor
  · rcases allPadding.handleEvent_eq with ⟨memory, handed⟩
    rw [handed, padding, rc]
    rfl
  · rw [harmless_of_unicast _ unicast, padding, rc]
    omega

end Incoming

end ETHInterface

end Cjdns
