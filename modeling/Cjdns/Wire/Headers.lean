import Cjdns.Util.Endian
import Cjdns.Wire.Message

/-!
# Switch and control headers

Accessors for `struct Headers_SwitchHeader` and `struct Control`. A header is
given by the memory and the address at which it lies.
-/

namespace Cjdns

/-! ## The switch header -/

namespace Headers

/-- `Headers_SwitchHeader_SIZE` -/
abbrev SwitchHeader_SIZE : ℕ := 12

/-- `Headers_SwitchHeader_TYPE_DATA` -/
abbrev SwitchHeader_TYPE_DATA : BitVec 32 := 0

/-- `Headers_SwitchHeader_TYPE_CONTROL` -/
abbrev SwitchHeader_TYPE_CONTROL : BitVec 32 := 1

/-- The field `label_be` -/
def label_be (memory : Memory) (header : ℤ) : BitVec 64 :=
  memory.load header 64

/-- Assignment to the field `label_be` -/
def setLabel_be (memory : Memory) (header : ℤ) (label : BitVec 64) : Memory :=
  memory.store header label

/-- The field `lowBits_be` -/
def lowBits_be (memory : Memory) (header : ℤ) : BitVec 32 :=
  memory.load (header + 8) 32

/-- The 24 bits of the priority. -/
def priorityMask : BitVec 32 :=
  (1 <<< 24) - 1

/-- `Headers_getMessageType` -/
def getMessageType (memory : Memory) (header : ℤ) : BitVec 32 :=
  Endian.bigEndianToHost32 (lowBits_be memory header) >>> 24

/-- `Headers_getPriority` -/
def getPriority (memory : Memory) (header : ℤ) : BitVec 32 :=
  Endian.bigEndianToHost32 (lowBits_be memory header) &&& priorityMask

/-- `Headers_setPriorityAndMessageType` -/
def setPriorityAndMessageType (memory : Memory) (header : ℤ) (priority messageType : BitVec 32) :
    Memory :=
  memory.store (header + 8)
    (Endian.hostToBigEndian32 ((priority &&& priorityMask) ||| (messageType <<< 24)))

/-- The label in host order. -/
def label (memory : Memory) (header : ℤ) : BitVec 64 :=
  Endian.bigEndianToHost64 (label_be memory header)

@[simp]
theorem label_setLabel_be (memory : Memory) (header : ℤ) (value : BitVec 64) :
    label (setLabel_be memory header (Endian.hostToBigEndian64 value)) header = value := by
  simp [label, label_be, setLabel_be, Memory.load_store]

@[simp]
theorem label_setPriorityAndMessageType (memory : Memory) (header : ℤ)
    (priority messageType : BitVec 32) :
    label (setPriorityAndMessageType memory header priority messageType) header =
      label memory header := by
  rw [label, label, label_be, label_be, setPriorityAndMessageType,
    Memory.load_store_disjoint _ (by omega)]

@[simp]
theorem lowBits_be_setLabel_be (memory : Memory) (header : ℤ) (value : BitVec 64) :
    lowBits_be (setLabel_be memory header value) header = lowBits_be memory header := by
  rw [lowBits_be, lowBits_be, setLabel_be, Memory.load_store_disjoint _ (by omega)]

/-- The label of a message that begins with a switch header. -/
def messageLabel (message : Message) : BitVec 64 :=
  label message.memory message.bytes

/-- A message that consists of a switch header with a label and zeros. -/
def bareHeader (value : BitVec 64) : Message where
  memory := setLabel_be (fun _ => 0) 0 (Endian.hostToBigEndian64 value)
  length := SwitchHeader_SIZE
  padding := 0
  bytes := 0

@[simp]
theorem messageLabel_bareHeader (value : BitVec 64) :
    messageLabel (bareHeader value) = value :=
  label_setLabel_be ..

theorem label_eq_of_content_eq {left right : Message} (same : left.content = right.content)
    (long : SwitchHeader_SIZE ≤ left.length) : messageLabel left = messageLabel right := by
  have lengths : left.length = right.length := by
    simpa using congrArg List.length same
  change 12 ≤ left.length at long
  simp only [Message.content, ← lengths] at same
  rw [messageLabel, messageLabel, label, label, label_be, label_be,
    Memory.load_eq_of_read_eq left.length same (by omega)]

/-- The type and the priority make up the low bits of the header. -/
theorem type_or_priority (word : BitVec 32) :
    (word &&& priorityMask) ||| (word >>> 24 <<< 24) = word := by
  apply BitVec.eq_of_getLsbD_eq
  intro index inside
  unfold priorityMask
  interval_cases index <;> simp

/-- Rewriting the priority of a header that has priority zero leaves it as it was. -/
theorem setPriority_zero_of_getPriority {memory : Memory} {header : ℤ}
    (zero : getPriority memory header = 0) :
    setPriorityAndMessageType memory header 0 (getMessageType memory header) = memory := by
  have word := type_or_priority (Endian.bigEndianToHost32 (lowBits_be memory header))
  rw [show Endian.bigEndianToHost32 (lowBits_be memory header) &&& priorityMask = 0#32 from zero,
    BitVec.zero_or] at word
  rw [setPriorityAndMessageType, show (0 : BitVec 32) &&& priorityMask = 0#32 by simp,
    BitVec.zero_or, getMessageType, word]
  simp only [Endian.hostToBigEndian32, Endian.bigEndianToHost32, Endian.byteSwap32_byteSwap32]
  exact Memory.store_load memory _ (by norm_num)

/-- A header with its priority cleared has priority zero. -/
theorem getPriority_setPriority_zero (memory : Memory) (header : ℤ) (messageType : BitVec 32) :
    getPriority (setPriorityAndMessageType memory header 0 messageType) header = 0 := by
  rw [getPriority, lowBits_be, setPriorityAndMessageType, Memory.load_store _ _ _ (by norm_num)]
  simp only [Endian.hostToBigEndian32, Endian.bigEndianToHost32, Endian.byteSwap32_byteSwap32]
  apply BitVec.eq_of_getLsbD_eq
  intro index inside
  unfold priorityMask
  interval_cases index <;> simp

end Headers

/-! ## The control header -/

namespace Control

/-- `Control_HEADER_SIZE` -/
abbrev HEADER_SIZE : ℕ := 4

/-- `Control_Error_HEADER_SIZE` -/
abbrev Error_HEADER_SIZE : ℕ := 4

/-- `Control_Error_MIN_SIZE` -/
abbrev Error_MIN_SIZE : ℕ := Error_HEADER_SIZE + Headers.SwitchHeader_SIZE

/-- `Control_Error_MAX_SIZE` -/
abbrev Error_MAX_SIZE : ℕ := 256

/-- `Control_Ping_MIN_SIZE` -/
abbrev Ping_MIN_SIZE : ℕ := 8

/-- `Control_ERROR_be` -/
def ERROR_be : BitVec 16 := Endian.hostToBigEndian16 2

/-- `Control_PING_be` -/
def PING_be : BitVec 16 := Endian.hostToBigEndian16 3

/-- `Control_PONG_be` -/
def PONG_be : BitVec 16 := Endian.hostToBigEndian16 4

/-- `Control_Pong_MAGIC` -/
def Pong_MAGIC : BitVec 32 := Endian.hostToBigEndian32 0x9d74e35b

/-- Assignment to the field `checksum_be` -/
def setChecksum_be (memory : Memory) (ctrl : ℤ) (checksum : BitVec 16) : Memory :=
  memory.store ctrl checksum

/-- The field `type_be` -/
def type_be (memory : Memory) (ctrl : ℤ) : BitVec 16 :=
  memory.load (ctrl + 2) 16

/-- Assignment to the field `type_be` -/
def setType_be (memory : Memory) (ctrl : ℤ) (type : BitVec 16) : Memory :=
  memory.store (ctrl + 2) type

/-- The field `content.error.errorType_be` -/
def errorType_be (memory : Memory) (ctrl : ℤ) : BitVec 32 :=
  memory.load (ctrl + 4) 32

/-- Assignment to the field `content.error.errorType_be` -/
def setErrorType_be (memory : Memory) (ctrl : ℤ) (code : BitVec 32) : Memory :=
  memory.store (ctrl + 4) code

end Control

/-! ## Error codes -/

namespace Error

/-- `Error_NONE` -/
abbrev NONE : BitVec 8 := 0

/-- `Error_MALFORMED_ADDRESS` -/
abbrev MALFORMED_ADDRESS : BitVec 8 := 1

/-- `Error_UNDERSIZE_MESSAGE` -/
abbrev UNDERSIZE_MESSAGE : BitVec 8 := 5

/-- `Error_AUTHENTICATION` -/
abbrev AUTHENTICATION : BitVec 8 := 6

/-- `Error_INVALID` -/
abbrev INVALID : BitVec 8 := 7

/-- `Error_UNDELIVERABLE` -/
abbrev UNDELIVERABLE : BitVec 8 := 8

end Error

end Cjdns
