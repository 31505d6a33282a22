import Cjdns.Net.PingTable
import Cjdns.Switch.Splicing
import Cjdns.Util.ChecksumLaw

/-!
# Ping packets

What a ping and its pong are made of, as the switch pinger writes it, the switches carry it and the
node that is pinged sends it back: on the way nothing behind the switch header is touched.
-/

namespace Cjdns

/-! ## Bytes behind the switch header -/

namespace Message

/-- What is behind the switch header -/
def payload (message : Message) : List (BitVec 8) :=
  message.memory.read (message.bytes + Headers.SwitchHeader_SIZE)
    (message.length - Headers.SwitchHeader_SIZE)

/-- The type of the packet and what is behind the switch header are the same. -/
structure SamePayload (first second : Message) : Prop where
  length : second.length = first.length
  type : Headers.getMessageType second.memory second.bytes =
    Headers.getMessageType first.memory first.bytes
  payload : second.payload = first.payload

theorem SamePayload.trans {first second third : Message} (one : SamePayload first second)
    (two : SamePayload second third) : SamePayload first third where
  length := two.length.trans one.length
  type := two.type.trans one.type
  payload := two.payload.trans one.payload

theorem SamePayload.refl (message : Message) : SamePayload message message :=
  ⟨rfl, rfl, rfl⟩

end Message

namespace Headers

theorem getMessageType_setLabel_be (memory : Memory) (header : ℤ) (value : BitVec 64) :
    getMessageType (setLabel_be memory header value) header = getMessageType memory header := by
  rw [getMessageType, getMessageType, lowBits_be_setLabel_be]

theorem getMessageType_setPriorityAndMessageType (memory : Memory) (header : ℤ)
    (priority : BitVec 32) {messageType : BitVec 32} (small : messageType.toNat < 2 ^ 8) :
    getMessageType (setPriorityAndMessageType memory header priority messageType) header =
      messageType := by
  rw [getMessageType, lowBits_be, setPriorityAndMessageType, Memory.load_store _ _ _ (by norm_num)]
  simp only [Endian.hostToBigEndian32, Endian.bigEndianToHost32, Endian.byteSwap32_byteSwap32]
  apply BitVec.eq_of_getLsbD_eq
  intro index inside
  rw [BitVec.getLsbD_ushiftRight, BitVec.getLsbD_or, BitVec.getLsbD_and, BitVec.getLsbD_shiftLeft]
  have high : priorityMask.getLsbD (24 + index) = false := by
    unfold priorityMask
    interval_cases index <;> decide
  rw [high, Bool.and_false, Bool.false_or, Nat.add_sub_cancel_left]
  by_cases byte : index < 8
  · simp [show 24 + index < 32 by omega]
  · have zero : messageType.getLsbD index = false := by
      rw [← BitVec.testBit_toNat]
      exact Nat.testBit_lt_two_pow (lt_of_lt_of_le small (Nat.pow_le_pow_right (by omega)
        (not_lt.mp byte)))
    rw [zero, Bool.and_false]

theorem getMessageType_lt (memory : Memory) (header : ℤ) :
    (getMessageType memory header).toNat < 2 ^ 8 := by
  have bound := (Endian.bigEndianToHost32 (lowBits_be memory header)).isLt
  rw [getMessageType, BitVec.toNat_ushiftRight, Nat.shiftRight_eq_div_pow]
  omega

end Headers

namespace SwitchCore

open NumberCompress (INTERFACES)

variable {core : SwitchCore} {send : Fin INTERFACES → Message → BitVec 8 × Message}
  {sourceIndex destIndex : Fin INTERFACES} {message handed : Message}

/-- A label is written in front of the payload. -/
theorem samePayload_setLabel_be (message : Message) (value : BitVec 64) :
    message.SamePayload { message with
      memory := Headers.setLabel_be message.memory message.bytes value } where
  length := rfl
  type := Headers.getMessageType_setLabel_be ..
  payload := by
    apply Memory.read_congr
    intro place lower upper
    exact Memory.store_outside _ (.inr (by change message.bytes + 12 ≤ place at lower; omega))

theorem samePayload_meter (switchIf : SwitchInterface) (toSend : Message) :
    toSend.SamePayload (meter switchIf toSend) := by
  rw [meter]
  dsimp only
  split_ifs
  · exact
      { length := rfl
        type := Headers.getMessageType_setPriorityAndMessageType _ _ _
          (Headers.getMessageType_lt ..)
        payload := by
          apply Memory.read_congr
          intro place lower upper
          change toSend.bytes + 12 ≤ place at lower
          exact Memory.store_outside _ (.inr (by omega)) }
  · exact .refl toSend

/-- A switch touches nothing behind the switch header. -/
theorem samePayload_relabelled (targetLabel : BitVec 64) :
    message.SamePayload (core.relabelled destIndex targetLabel message) :=
  (samePayload_setLabel_be message _).trans (samePayload_meter _ _)

/-- What is handed on is the message with another label. -/
theorem handed_eq
    (receives : core.receiveMessage send sourceIndex message = some [.forwarded destIndex handed]) :
    handed = core.relabelled destIndex (Headers.messageLabel handed) message := by
  have notDropped : core.handle send sourceIndex message ≠ .dropped := by
    intro dropped
    simp [receiveMessage, dropped] at receives
  rcases metered_long_of_handle notDropped with ⟨metered, long⟩
  rw [receiveMessage, handle_eq metered long] at receives
  cases verdict : core.route sourceIndex (Headers.messageLabel message) with
  | malformed => simp [verdict, List.map_eq_cons_iff] at receives
  | forward dest targetLabel =>
      simp only [verdict] at receives
      by_cases err : (send dest (core.relabelled dest targetLabel message)).1 ≠ Error.NONE
      · simp only [if_pos err, Option.toList_some, List.map_cons, List.map_nil,
          List.cons_append, List.nil_append, Option.map_eq_some_iff, List.cons.injEq,
          Sent.forwarded.injEq] at receives
        rcases receives with ⟨_, _, ⟨rfl, rfl⟩, _⟩
        rw [messageLabel_relabelled]
      · simp only [if_neg err, Option.some.injEq, List.cons.injEq, Sent.forwarded.injEq,
          and_true] at receives
        rcases receives with ⟨rfl, rfl⟩
        rw [messageLabel_relabelled]

theorem samePayload_handed
    (receives : core.receiveMessage send sourceIndex message = some [.forwarded destIndex handed]) :
    message.SamePayload handed := by
  rw [handed_eq receives]
  exact samePayload_relabelled _

end SwitchCore

/-- A link carries the whole content. -/
theorem Network.Carried.samePayload {sent arrived : Message} (carried : Network.Carried sent arrived)
    (long : Headers.SwitchHeader_SIZE ≤ sent.length) : sent.SamePayload arrived := by
  have length := carried.length_eq
  have content := carried
  rw [Network.Carried, Message.content, Message.content, length] at content
  change 12 ≤ sent.length at long
  refine ⟨length, ?_, ?_⟩
  · have low := Memory.read_eq_within content (show 8 + 4 ≤ sent.length from long)
    have word : arrived.memory.load (arrived.bytes + 8) 32 = sent.memory.load (sent.bytes + 8) 32 :=
      Memory.load_eq_of_read_eq 4 low.symm (by decide)
    rw [Headers.getMessageType, Headers.getMessageType, Headers.lowBits_be, Headers.lowBits_be,
      word]
  · rw [Message.payload, Message.payload, length]
    exact (Memory.read_eq_within content (Nat.add_sub_cancel' long).le).symm

/-! ## Pings and pongs -/

namespace Control

/-- `Control_Ping_MAGIC` -/
def Ping_MAGIC : BitVec 32 :=
  Endian.hostToBigEndian32 0x09f91102

/-- A ping or pong with a switch header, as it is found in memory -/
structure IsPing (type : BitVec 16) (magic version : BitVec 32) (data : List (BitVec 8))
    (message : Message) : Prop where
  length : message.length = 24 + data.length
  control : Headers.getMessageType message.memory message.bytes = Headers.SwitchHeader_TYPE_CONTROL
  valid : Checksum.engine message.memory (message.bytes + 12)
    (BitVec.ofNat 16 (12 + data.length)) = 0
  type_eq : type_be message.memory (message.bytes + 12) = type
  magic_eq : message.memory.load (message.bytes + 16) 32 = magic
  version_eq : message.memory.load (message.bytes + 20) 32 = version
  data_eq : message.memory.read (message.bytes + 24) data.length = data

variable {type : BitVec 16} {magic version : BitVec 32} {data : List (BitVec 8)}
  {message other : Message}

/-- It is the same ping wherever it is carried. -/
theorem IsPing.carry (ping : IsPing type magic version data message)
    (small : 12 + data.length < 2 ^ 16) (same : message.SamePayload other) :
    IsPing type magic version data other := by
  have payload := same.payload
  have length : other.length - 12 = 12 + data.length := by
    rw [same.length, ping.length]
    omega
  have sameLength : message.length - 12 = 12 + data.length := by
    rw [ping.length]
    omega
  rw [Message.payload, Message.payload, length, sameLength] at payload
  have word (offset width : ℕ) (inside : offset + width / 8 ≤ 12 + data.length) (whole : 8 ∣ width) :
      other.memory.load (other.bytes + (12 : ℕ) + offset) width =
        message.memory.load (message.bytes + (12 : ℕ) + offset) width := by
    apply Memory.load_eq_of_read_eq (width / 8) (Memory.read_eq_within payload inside)
    omega
  refine ⟨same.length.trans ping.length, same.type.trans ping.control, ?_, ?_, ?_, ?_, ?_⟩
  · rw [← ping.valid, ← Checksum.Host.engine_read, ← Checksum.Host.engine_read,
      BitVec.toNat_ofNat, Nat.mod_eq_of_lt small]
    exact congrArg _ payload
  · rw [← ping.type_eq, type_be, type_be]
    exact word 2 16 (by omega) (by decide)
  · have found := word 4 32 (by omega) (by decide)
    rw [add_assoc, add_assoc] at found
    rw [← ping.magic_eq]
    exact found
  · have found := word 8 32 (by omega) (by decide)
    rw [add_assoc, add_assoc] at found
    rw [← ping.version_eq]
    exact found
  · have bytes := Memory.read_eq_within payload (show 12 + data.length ≤ 12 + data.length from le_rfl)
    rw [add_assoc, add_assoc] at bytes
    exact bytes.trans ping.data_eq

end Control

/-! ## Checksums -/

/-- Storing a word at the beginning sets the first word. -/
theorem Checksum.read_store (memory : Memory) (buffer : ℤ) {count : ℕ} (enough : 2 ≤ count)
    (word : BitVec 16) :
    (memory.store buffer word).read buffer count =
      (Host.mk false).setWord (memory.read buffer count) 0 word := by
  rcases Nat.exists_eq_add_of_le enough with ⟨rest, rfl⟩
  have front (bytes : Memory) : bytes.read buffer 2 = [bytes buffer, bytes (buffer + 1)] := by
    simp [Memory.read, List.range_succ]
  have behind : (memory.store buffer word).read (buffer + (2 : ℕ)) rest =
      memory.read (buffer + (2 : ℕ)) rest := by
    apply Memory.read_congr
    intro place lower upper
    exact Memory.store_outside _ (.inr (by omega))
  have first : memory.store buffer word buffer = word.extractLsb' 0 8 := by
    rw [Memory.store, if_pos (by omega), sub_self]
    rfl
  have second : memory.store buffer word (buffer + 1) = word.extractLsb' 8 8 := by
    rw [Memory.store, if_pos (by omega), add_sub_cancel_left]
    rfl
  rw [Memory.read_add, Memory.read_add, behind, front, front, first, second]
  rfl

/-- A field of zero that is given the checksum makes the checksum zero. -/
theorem Checksum.engine_store {memory : Memory} {buffer : ℤ} {length : BitVec 16}
    (enough : 2 ≤ length.toNat) (zero : memory.load buffer 16 = 0) :
    engine (memory.store buffer (engine memory buffer length)) buffer length = 0 := by
  have small : (memory.read buffer length.toNat).length ≤ 65535 := by
    rw [Memory.length_read]
    exact Nat.le_of_lt_succ length.isLt
  have inside : 2 * 0 + 2 ≤ (memory.read buffer length.toNat).length := by
    rwa [Memory.length_read]
  have stored := (@Host.law_engine ⟨false⟩).stored _ 0 small inside
  have same : memory.store buffer (0 : BitVec 16) = memory := by
    rw [← zero]
    exact Memory.store_load _ _ (by decide)
  have inner := read_store memory buffer enough 0
  rw [same] at inner
  rw [← inner, Host.engine_read, ← read_store memory buffer enough, Host.engine_read] at stored
  exact stored

end Cjdns
