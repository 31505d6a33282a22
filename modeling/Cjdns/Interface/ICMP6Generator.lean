import Cjdns.Library.Fuel
import Cjdns.Util.Endian
import Cjdns.Wire.Message

/-!
# Fragmenting packets

A packet with a fragment header that is longer than the MTU is cut in the buffer that it is in.
The fragments are sent one after the other, and in front of what is left the header is put back.
-/

namespace Cjdns.ICMP6Generator

/-- `Headers_IP6Header_SIZE` -/
abbrev IP6Header_SIZE : ℕ := 40

/-- `Headers_IP6Fragment_SIZE` -/
abbrev IP6Fragment_SIZE : ℕ := 8

/-- `headersSize` -/
abbrev headersSize : ℕ := IP6Header_SIZE + IP6Fragment_SIZE

/-! ## The headers -/

/-- The field `payloadLength_be` of the packet at an address -/
def payloadLength_be (memory : Memory) (ip6 : ℤ) : BitVec 16 :=
  memory.load (ip6 + 4) 16

def setPayloadLength (memory : Memory) (ip6 : ℤ) (length : BitVec 16) : Memory :=
  memory.store (ip6 + 4) (Endian.hostToBigEndian16 length)

/-- The field `fragmentOffsetAndMoreFragments_be` of the packet at an address -/
def offsetAndMore_be (memory : Memory) (ip6 : ℤ) : BitVec 16 :=
  memory.load (ip6 + 42) 16

/-- `Headers_IP6Fragment_getOffset` -/
def getOffset (memory : Memory) (ip6 : ℤ) : BitVec 16 :=
  Endian.bigEndianToHost16 (offsetAndMore_be memory ip6) >>> 3

/-- `Headers_IP6Fragment_setOffset` -/
def setOffset (memory : Memory) (ip6 : ℤ) (offset : BitVec 16) : Memory :=
  memory.store (ip6 + 42) (offsetAndMore_be memory ip6 &&& Endian.hostToBigEndian16 7 |||
    Endian.hostToBigEndian16 (offset <<< 3))

/-- `Headers_IP6Fragment_hasMoreFragments` -/
def hasMoreFragments (memory : Memory) (ip6 : ℤ) : Bool :=
  offsetAndMore_be memory ip6 &&& Endian.hostToBigEndian16 1 ≠ 0

/-- `Headers_IP6Fragment_setMoreFragments`, for `true` -/
def setMoreFragments (memory : Memory) (ip6 : ℤ) : Memory :=
  memory.store (ip6 + 42) (offsetAndMore_be memory ip6 ||| Endian.hostToBigEndian16 1)

/-- The field `identifier` of the packet at an address -/
def identifier (memory : Memory) (ip6 : ℤ) : BitVec 32 :=
  memory.load (ip6 + 44) 32

/-! ## Sending -/

/-- How many bytes of the payload go into a fragment -/
def share (mtu : BitVec 32) : ℕ :=
  ((mtu - BitVec.ofNat 32 headersSize) / 8 * 8).toNat

/-- Whoever gets a message may write to it and to the padding in front of it. -/
def receiveMessage (overwrites : Memory) (msg : Message) : Memory := fun place =>
  if place < msg.bytes + msg.length then overwrites place else msg.memory place

/-- The part of `sendFragmented` that sends a fragment: what is sent, and the rest behind its
header; there is no result where an assertion fails. -/
def sendFirst (overwrites : Memory) (mtu : BitVec 32) (msg : Message) (offsetBytes : ℕ) :
    Option (Message × Message) := do
  if msg.length ≤ headersSize then none
  let msgHeader := msg.memory.read msg.bytes headersSize
  let ip6 := msg.bytes
  let msg ← msg.shift (-headersSize)
  -- prepare next message
  let nextMessage ← msg.shift (-share mtu)
  let length := msg.length - nextMessage.length
  let memory := setPayloadLength msg.memory ip6 (BitVec.ofNat 16 (length + IP6Fragment_SIZE))
  let msg ← Message.shift { msg with length := length, memory := memory } headersSize
  let msgNextPartFirstLong := msg.memory.load nextMessage.bytes 64
  let sent := { msg with
    memory := setMoreFragments (setOffset msg.memory ip6 (BitVec.ofNat 16 (offsetBytes / 8))) ip6 }
  let memory := receiveMessage overwrites sent
  -- sanity check
  if memory.load nextMessage.bytes 64 ≠ msgNextPartFirstLong then none
  let nextMessage ← nextMessage.shift headersSize
  some (sent, { nextMessage with memory := memory.write nextMessage.bytes msgHeader })

/-- The last fragment -/
def lastFragment (nextMessage : Message) (nextMessageOffsetBytes : ℕ) : Message :=
  { nextMessage with
    memory := setPayloadLength
      (setOffset nextMessage.memory nextMessage.bytes
        (BitVec.ofNat 16 (nextMessageOffsetBytes / 8)))
      nextMessage.bytes (BitVec.ofNat 16 (nextMessage.length - IP6Header_SIZE)) }

/-- `sendFragmented`: the messages that are sent, where the receiver of the n-th one leaves
something in memory -/
def sendFragmented (overwrites : ℕ → Memory) (mtu : BitVec 32) :
    ℕ → ℕ → Message → ℕ → Option (List Message)
  | 0, _, _, _ => none
  | fuel + 1, count, msg, offsetBytes =>
      (sendFirst (overwrites count) mtu msg offsetBytes).bind fun (sent, nextMessage) =>
        let nextMessageOffsetBytes := offsetBytes + share mtu
        if (nextMessage.length : ℤ) > mtu.toInt then
          (sendFragmented overwrites mtu fuel (count + 1) nextMessage nextMessageOffsetBytes).map
            (sent :: ·)
        else some [sent, lastFragment nextMessage nextMessageOffsetBytes]

/-- `Headers_getIpVersion` -/
def getIpVersion (memory : Memory) (ip6 : ℤ) : BitVec 8 :=
  memory ip6 >>> 4

/-- The field `nextHeader` of the packet at an address -/
def nextHeader (memory : Memory) (ip6 : ℤ) : BitVec 8 :=
  memory (ip6 + 6)

/-- `Headers_IP6Fragment_TYPE` -/
abbrev IP6Fragment_TYPE : BitVec 8 := 44

/-- What `incoming` does with a packet: it is passed on, it is answered with an error or it is sent
in fragments. -/
inductive Handled where
  | passed (msg : Message)
  | tooBig (msg : Message)
  | fragments (sent : Option (List Message))

def incoming (overwrites : ℕ → Memory) (mtu : BitVec 32) (msg : Message) (fuel : ℕ) : Handled :=
  if IP6Header_SIZE ≤ msg.length ∧ getIpVersion msg.memory msg.bytes = 6 ∧
      (msg.length : ℤ) > mtu.toInt then
    if nextHeader msg.memory msg.bytes = IP6Fragment_TYPE then
      .fragments (sendFragmented overwrites mtu fuel 0 msg 0)
    else .tooBig msg
  else .passed msg

/-! ## The fields -/

@[simp]
theorem byteSwap16_and (first second : BitVec 16) : Endian.byteSwap16 (first &&& second) =
    Endian.byteSwap16 first &&& Endian.byteSwap16 second := by
  apply BitVec.eq_of_getLsbD_eq
  intro index inside
  rw [Endian.getLsbD_byteSwap16 _ inside, BitVec.getLsbD_and, BitVec.getLsbD_and,
    Endian.getLsbD_byteSwap16 _ inside, Endian.getLsbD_byteSwap16 _ inside]

@[simp]
theorem byteSwap16_or (first second : BitVec 16) : Endian.byteSwap16 (first ||| second) =
    Endian.byteSwap16 first ||| Endian.byteSwap16 second := by
  apply BitVec.eq_of_getLsbD_eq
  intro index inside
  rw [Endian.getLsbD_byteSwap16 _ inside, BitVec.getLsbD_or, BitVec.getLsbD_or,
    Endian.getLsbD_byteSwap16 _ inside, Endian.getLsbD_byteSwap16 _ inside]

theorem offsetAndMore_setOffset (memory : Memory) (ip6 : ℤ) (offset : BitVec 16) :
    offsetAndMore_be (setOffset memory ip6 offset) ip6 =
      offsetAndMore_be memory ip6 &&& Endian.hostToBigEndian16 7 |||
        Endian.hostToBigEndian16 (offset <<< 3) := by
  rw [offsetAndMore_be, setOffset, Memory.load_store _ _ _ (by norm_num)]

theorem offsetAndMore_setMoreFragments (memory : Memory) (ip6 : ℤ) :
    offsetAndMore_be (setMoreFragments memory ip6) ip6 =
      offsetAndMore_be memory ip6 ||| Endian.hostToBigEndian16 1 := by
  rw [offsetAndMore_be, setMoreFragments, Memory.load_store _ _ _ (by norm_num)]

/-- An offset of thirteen bits is read as it was written, whatever the flags. -/
theorem ushiftRight_field {flags offset : BitVec 16} (small : flags.toNat < 8)
    (fits : offset.toNat < 2 ^ 13) : (flags ||| offset <<< 3) >>> 3 = offset := by
  apply BitVec.eq_of_getLsbD_eq
  intro index inside
  have high : flags.getLsbD (3 + index) = false := by
    rw [← BitVec.testBit_toNat]
    exact Nat.testBit_lt_two_pow (lt_of_lt_of_le (show flags.toNat < 2 ^ 3 from small)
      (Nat.pow_le_pow_right (by norm_num) (Nat.le_add_right 3 index)))
  rw [BitVec.getLsbD_ushiftRight, BitVec.getLsbD_or, high, Bool.false_or, BitVec.getLsbD_shiftLeft]
  by_cases within : 3 + index < 16
  · simp [within]
  · have zero : offset.getLsbD index = false := by
      rw [← BitVec.testBit_toNat]
      exact Nat.testBit_lt_two_pow (lt_of_lt_of_le fits
        (Nat.pow_le_pow_right (by norm_num) (by omega)))
    simp [within, zero]

theorem getOffset_setOffset (memory : Memory) (ip6 : ℤ) {offset : BitVec 16}
    (fits : offset.toNat < 2 ^ 13) : getOffset (setOffset memory ip6 offset) ip6 = offset := by
  rw [getOffset, offsetAndMore_setOffset, Endian.bigEndianToHost16, Endian.hostToBigEndian16,
    byteSwap16_or, byteSwap16_and, Endian.byteSwap16_byteSwap16, Endian.byteSwap16_byteSwap16]
  refine ushiftRight_field ?_ fits
  rw [BitVec.toNat_and]
  exact Nat.and_lt_two_pow (n := 3) _ (by decide)

/-- The flag is a bit of the field, in the byte order of the host. -/
theorem hasMoreFragments_eq (memory : Memory) (ip6 : ℤ) :
    hasMoreFragments memory ip6 = (offsetAndMore_be memory ip6).getLsbD 8 := by
  have flag : Endian.hostToBigEndian16 1 = BitVec.twoPow 16 8 := by decide
  rw [hasMoreFragments, flag, BitVec.and_twoPow]
  cases (offsetAndMore_be memory ip6).getLsbD 8 <;> decide

theorem hasMoreFragments_setOffset (memory : Memory) (ip6 : ℤ) (offset : BitVec 16) :
    hasMoreFragments (setOffset memory ip6 offset) ip6 = hasMoreFragments memory ip6 := by
  have flags : (Endian.hostToBigEndian16 7).getLsbD 8 = true := by decide
  have low : (Endian.hostToBigEndian16 (offset <<< 3)).getLsbD 8 = false := by
    rw [Endian.hostToBigEndian16, Endian.getLsbD_byteSwap16 _ (by norm_num),
      BitVec.getLsbD_shiftLeft]
    simp
  rw [hasMoreFragments_eq, hasMoreFragments_eq, offsetAndMore_setOffset, BitVec.getLsbD_or,
    BitVec.getLsbD_and, flags, low, Bool.and_true, Bool.or_false]

theorem hasMoreFragments_setMoreFragments (memory : Memory) (ip6 : ℤ) :
    hasMoreFragments (setMoreFragments memory ip6) ip6 = true := by
  have flag : (Endian.hostToBigEndian16 1).getLsbD 8 = true := by decide
  rw [hasMoreFragments_eq, offsetAndMore_setMoreFragments, BitVec.getLsbD_or, flag, Bool.or_true]

theorem getOffset_setMoreFragments (memory : Memory) (ip6 : ℤ) :
    getOffset (setMoreFragments memory ip6) ip6 = getOffset memory ip6 := by
  rw [getOffset, getOffset, offsetAndMore_setMoreFragments, Endian.bigEndianToHost16,
    Endian.hostToBigEndian16, byteSwap16_or, Endian.byteSwap16_byteSwap16]
  apply BitVec.eq_of_getLsbD_eq
  intro index inside
  rw [BitVec.getLsbD_ushiftRight, BitVec.getLsbD_ushiftRight, BitVec.getLsbD_or]
  interval_cases index <;> simp

/-! ## A packet -/

/-- The payload behind both headers -/
def payload (msg : Message) : List (BitVec 8) :=
  msg.memory.read (msg.bytes + headersSize) (msg.length - headersSize)

/-- A packet with some part of a payload -/
structure Carries (msg : Message) (offset : ℕ) (part : List (BitVec 8)) (tag : BitVec 32)
    (more : Bool) : Prop where
  length : msg.length = headersSize + part.length
  payloadLength : (Endian.bigEndianToHost16 (payloadLength_be msg.memory msg.bytes)).toNat =
    msg.length - IP6Header_SIZE
  offset : (getOffset msg.memory msg.bytes).toNat * 8 = offset
  payload : payload msg = part
  identifier : identifier msg.memory msg.bytes = tag
  more : hasMoreFragments msg.memory msg.bytes = more

/-- The rest of a payload behind the header of the whole packet -/
structure Leaves (msg : Message) (part : List (BitVec 8)) (tag : BitVec 32) (more : Bool) :
    Prop where
  length : msg.length = headersSize + part.length
  payload : payload msg = part
  identifier : identifier msg.memory msg.bytes = tag
  more : hasMoreFragments msg.memory msg.bytes = more

theorem getOffset_setPayloadLength (memory : Memory) (ip6 : ℤ) (length : BitVec 16) :
    getOffset (setPayloadLength memory ip6 length) ip6 = getOffset memory ip6 := by
  rw [getOffset, getOffset, offsetAndMore_be, setPayloadLength,
    Memory.load_store_disjoint _ (.inr (by omega)), offsetAndMore_be]

theorem hasMoreFragments_setPayloadLength (memory : Memory) (ip6 : ℤ) (length : BitVec 16) :
    hasMoreFragments (setPayloadLength memory ip6 length) ip6 = hasMoreFragments memory ip6 := by
  rw [hasMoreFragments, hasMoreFragments, offsetAndMore_be, setPayloadLength,
    Memory.load_store_disjoint _ (.inr (by omega)), offsetAndMore_be]

/-- Setting a field changes the bytes of the field. -/
theorem store_field (memory : Memory) {ip6 place : ℤ} {field : ℤ} {word : BitVec 16}
    (outside : place < ip6 + field ∨ ip6 + field + 2 ≤ place) :
    (memory.store (ip6 + field) word) place = memory place :=
  Memory.store_outside memory (by omega)

/-- A packet whose fields are set -/
theorem carries_of_set {msg : Message} {memory : Memory} {count : ℕ}
    {part : List (BitVec 8)} {tag : BitVec 32} {more : Bool}
    (length : msg.length = headersSize + part.length)
    (payload : payload msg = part) (identifier : identifier msg.memory msg.bytes = tag)
    (flag : hasMoreFragments memory msg.bytes = more)
    (written : (Endian.bigEndianToHost16 (payloadLength_be memory msg.bytes)).toNat =
      msg.length - IP6Header_SIZE)
    (placed : (getOffset memory msg.bytes).toNat * 8 = count)
    (same : ∀ place, msg.bytes + 44 ≤ place → memory place = msg.memory place) :
    Carries { msg with memory := memory } count part tag more where
  length := length
  payloadLength := written
  offset := placed
  payload := by
    rw [← payload]
    refine Memory.read_congr fun place lower _ => same place ?_
    have above : msg.bytes + 48 ≤ place := lower
    omega
  identifier := by
    rw [← identifier]
    exact Memory.load_congr fun place lower _ => same place lower
  more := flag

/-- The fields of the last fragment -/
theorem Leaves.carries {msg : Message} {part : List (BitVec 8)} {tag : BitVec 32} {more : Bool}
    (leaves : Leaves msg part tag more) {offset : ℕ} (aligned : 8 ∣ offset)
    (fits : offset < 2 ^ 16) (short : msg.length < 2 ^ 16 + IP6Header_SIZE) :
    Carries (lastFragment msg offset) offset part tag more := by
  have small : (BitVec.ofNat 16 (offset / 8)).toNat = offset / 8 := by
    rw [BitVec.toNat_ofNat, Nat.mod_eq_of_lt (by omega)]
  refine carries_of_set leaves.length leaves.payload leaves.identifier ?_ ?_ ?_ ?_
  · rw [hasMoreFragments_setPayloadLength, hasMoreFragments_setOffset, leaves.more]
  · rw [payloadLength_be, setPayloadLength, Memory.load_store _ _ _ (by norm_num),
      Endian.bigEndianToHost16, Endian.hostToBigEndian16, Endian.byteSwap16_byteSwap16,
      BitVec.toNat_ofNat, Nat.mod_eq_of_lt]
    have := leaves.length
    change msg.length = 48 + _ at this
    change msg.length < 2 ^ 16 + 40 at short
    change msg.length - 40 < 2 ^ 16
    omega
  · rw [getOffset_setPayloadLength, getOffset_setOffset _ _ (by rw [small]; omega), small,
      Nat.div_mul_cancel aligned]
  · intro place above
    rw [setPayloadLength, store_field _ (.inr (by omega)), setOffset,
      store_field _ (.inr (by omega))]

/-- The buffer when a fragment is sent -/
def fragmentMemory (mtu : BitVec 32) (msg : Message) (offsetBytes : ℕ) : Memory :=
  setMoreFragments
    (setOffset
      (setPayloadLength msg.memory msg.bytes (BitVec.ofNat 16 (share mtu + IP6Fragment_SIZE)))
      msg.bytes (BitVec.ofNat 16 (offsetBytes / 8))) msg.bytes

theorem fragmentMemory_eq {mtu : BitVec 32} {msg : Message} {offsetBytes : ℕ} {place : ℤ}
    (above : msg.bytes + 44 ≤ place) :
    fragmentMemory mtu msg offsetBytes place = msg.memory place := by
  rw [fragmentMemory, setMoreFragments, store_field _ (.inr (by omega)), setOffset,
    store_field _ (.inr (by omega)), setPayloadLength, store_field _ (.inr (by omega))]

/-- What is sent first -/
def firstFragment (mtu : BitVec 32) (msg : Message) (offsetBytes : ℕ) : Message :=
  { msg with length := headersSize + share mtu, memory := fragmentMemory mtu msg offsetBytes }

/-- What is left -/
def remainder (overwrites : Memory) (mtu : BitVec 32) (msg : Message) (offsetBytes : ℕ) :
    Message where
  memory := (receiveMessage overwrites (firstFragment mtu msg offsetBytes)).write
    (msg.bytes + share mtu) (msg.memory.read msg.bytes headersSize)
  length := msg.length - share mtu
  padding := msg.padding + share mtu
  bytes := msg.bytes + share mtu

theorem receiveMessage_behind (overwrites : Memory) {msg : Message} {place : ℤ}
    (behind : msg.bytes + msg.length ≤ place) :
    receiveMessage overwrites msg place = msg.memory place :=
  if_neg (not_lt.mpr behind)

theorem sendFirst_eq (overwrites : Memory) {mtu : BitVec 32} {msg : Message} (offsetBytes : ℕ)
    (longer : headersSize + share mtu < msg.length) :
    sendFirst overwrites mtu msg offsetBytes =
      some (firstFragment mtu msg offsetBytes, remainder overwrites mtu msg offsetBytes) := by
  have size : headersSize = 48 := rfl
  have untouched : ∀ place : ℤ, msg.bytes + headersSize + share mtu ≤ place →
      receiveMessage overwrites (firstFragment mtu msg offsetBytes) place =
        setPayloadLength msg.memory msg.bytes
          (BitVec.ofNat 16 (share mtu + IP6Fragment_SIZE)) place := by
    intro place above
    have behind : (firstFragment mtu msg offsetBytes).bytes +
        (firstFragment mtu msg offsetBytes).length ≤ place := by
      change msg.bytes + ((headersSize + share mtu : ℕ) : ℤ) ≤ place
      omega
    rw [receiveMessage_behind overwrites behind]
    change fragmentMemory mtu msg offsetBytes place = _
    rw [fragmentMemory_eq (by omega), setPayloadLength, store_field _ (.inr (by omega))]
  have kept : msg.length - headersSize - (msg.length - headersSize - share mtu) = share mtu := by
    omega
  have first : ({
      memory := setMoreFragments (setOffset
        (setPayloadLength msg.memory msg.bytes (BitVec.ofNat 16 (share mtu + IP6Fragment_SIZE)))
        msg.bytes (BitVec.ofNat 16 (offsetBytes / 8))) msg.bytes
      length := share mtu + headersSize
      padding := msg.padding + headersSize - headersSize
      bytes := msg.bytes + headersSize - headersSize } : Message) =
      firstFragment mtu msg offsetBytes := by
    rw [firstFragment, Nat.add_comm (share mtu) headersSize, Nat.add_sub_cancel,
      add_sub_cancel_right]
    rfl
  rw [sendFirst, if_neg (not_le.mpr (by omega)), Message.shift_neg _ (by omega)]
  simp only [Option.bind_eq_bind, Option.bind_some]
  rw [Message.shift_neg _ (by dsimp only; omega)]
  simp only [Option.bind_some, kept]
  rw [Message.shift_pos _ (by norm_num) (by dsimp only; omega)]
  simp only [Option.bind_some, first]
  rw [if_neg (not_not.mpr (Memory.load_congr fun place lower _ => untouched place lower)),
    Message.shift_pos _ (by norm_num) (by dsimp only; omega)]
  simp only [Option.bind_some, remainder, Option.some.injEq, Prod.mk.injEq, true_and,
    Message.mk.injEq]
  have start : msg.bytes + headersSize + share mtu - headersSize = msg.bytes + share mtu := by ring
  rw [start]
  refine ⟨rfl, by omega, by omega, rfl⟩

/-- What is sent first, and what is left -/
theorem sendFirst_spec (overwrites : Memory) {mtu : BitVec 32} {msg : Message} {offset : ℕ}
    {part : List (BitVec 8)} {tag : BitVec 32} {more : Bool} (leaves : Leaves msg part tag more)
    (aligned : 8 ∣ offset) (fits : offset < 2 ^ 16) (longer : share mtu < part.length)
    (short : share mtu + IP6Fragment_SIZE < 2 ^ 16) :
    Carries (firstFragment mtu msg offset) offset (part.take (share mtu)) tag true ∧
      Leaves (remainder overwrites mtu msg offset) (part.drop (share mtu)) tag more := by
  have small : (BitVec.ofNat 16 (offset / 8)).toNat = offset / 8 := by
    rw [BitVec.toNat_ofNat, Nat.mod_eq_of_lt (by omega)]
  have total : msg.length = headersSize + part.length := leaves.length
  have whole : msg.length - headersSize = part.length := by omega
  have headers : headersSize = 48 := rfl
  constructor
  · have shorter : Leaves { msg with length := headersSize + share mtu }
        (part.take (share mtu)) tag more := by
      refine ⟨?_, ?_, leaves.identifier, leaves.more⟩
      · rw [List.length_take, min_eq_left longer.le]
      · rw [← leaves.payload, payload, payload, whole, Memory.take_read _ _ longer.le,
          Nat.add_sub_cancel_left]
    refine @carries_of_set { msg with length := headersSize + share mtu } _ _ _ _ _
      shorter.length shorter.payload shorter.identifier ?_ ?_ ?_ ?_
    · exact hasMoreFragments_setMoreFragments _ _
    · have field : payloadLength_be (fragmentMemory mtu msg offset) msg.bytes =
          Endian.hostToBigEndian16 (BitVec.ofNat 16 (share mtu + IP6Fragment_SIZE)) := by
        rw [payloadLength_be, fragmentMemory, setMoreFragments,
          Memory.load_store_disjoint _ (.inl (by omega)), setOffset,
          Memory.load_store_disjoint _ (.inl (by omega)), setPayloadLength,
          Memory.load_store _ _ _ (by norm_num)]
      dsimp only
      rw [field, Endian.bigEndianToHost16, Endian.hostToBigEndian16,
        Endian.byteSwap16_byteSwap16, BitVec.toNat_ofNat, Nat.mod_eq_of_lt short]
      change share mtu + 8 = 48 + share mtu - 40
      omega
    · dsimp only
      rw [fragmentMemory, getOffset_setMoreFragments,
        getOffset_setOffset _ _ (by rw [small]; omega), small, Nat.div_mul_cancel aligned]
    · exact fun place above => fragmentMemory_eq above
  · have length : (remainder overwrites mtu msg offset).length =
        headersSize + (part.drop (share mtu)).length := by
      rw [remainder, List.length_drop]
      dsimp only
      omega
    have behind : ∀ place : ℤ, msg.bytes + headersSize + share mtu ≤ place →
        (remainder overwrites mtu msg offset).memory place = msg.memory place := by
      intro place above
      have end_le : (firstFragment mtu msg offset).bytes +
          (firstFragment mtu msg offset).length ≤ place := by
        change msg.bytes + ((headersSize + share mtu : ℕ) : ℤ) ≤ place
        omega
      have past : msg.bytes + share mtu + (msg.memory.read msg.bytes headersSize).length ≤
          place := by
        rw [Memory.length_read]
        omega
      change (receiveMessage overwrites (firstFragment mtu msg offset)).write
        (msg.bytes + share mtu) (msg.memory.read msg.bytes headersSize) place = _
      rw [Memory.write_outside _ (.inr past), receiveMessage_behind overwrites end_le]
      exact fragmentMemory_eq (by omega)
    have header : (remainder overwrites mtu msg offset).memory.read (msg.bytes + share mtu)
        headersSize = msg.memory.read msg.bytes headersSize := by
      have written := Memory.read_write (receiveMessage overwrites (firstFragment mtu msg offset))
        (msg.bytes + share mtu) (msg.memory.read msg.bytes headersSize)
      rwa [Memory.length_read] at written
    refine ⟨length, ?_, ?_, ?_⟩
    · have start : (remainder overwrites mtu msg offset).bytes + headersSize =
          msg.bytes + headersSize + share mtu := by
        change msg.bytes + share mtu + headersSize = _
        ring
      have count : (remainder overwrites mtu msg offset).length - headersSize =
          part.length - share mtu := by
        rw [length, Nat.add_sub_cancel_left, List.length_drop]
      have same : payload (remainder overwrites mtu msg offset) =
          msg.memory.read (msg.bytes + headersSize + share mtu) (part.length - share mtu) := by
        rw [payload, start, count]
        exact Memory.read_congr fun place lower _ => behind place lower
      rw [same, ← Memory.drop_read _ _ longer.le, ← whole, ← leaves.payload, payload]
    · rw [← leaves.identifier]
      exact @Memory.load_eq_of_read_eq 32 _ _ _ _ 4
        (@Memory.read_eq_within _ _ _ _ _ 44 4 header (by norm_num)) le_rfl
    · have field : offsetAndMore_be (remainder overwrites mtu msg offset).memory
          (msg.bytes + share mtu) = offsetAndMore_be msg.memory msg.bytes :=
        @Memory.load_eq_of_read_eq 16 _ _ _ _ 2
          (@Memory.read_eq_within _ _ _ _ _ 42 2 header (by norm_num)) le_rfl
      rw [← leaves.more, hasMoreFragments, hasMoreFragments]
      change decide (offsetAndMore_be _ (msg.bytes + share mtu) &&& _ ≠ 0) = _
      rw [field]

/-! ## The fragments -/

/-- A packet has a byte for a position of the whole payload. -/
def Places (msg : Message) (position : ℕ) (byte : BitVec 8) : Prop :=
  ∃ index, (payload msg)[index]? = some byte ∧
    position = (getOffset msg.memory msg.bytes).toNat * 8 + index

/-- What is sent in the place of a packet -/
structure Replaces (mtu : BitVec 32) (sent : List Message) (offset : ℕ) (part : List (BitVec 8))
    (tag : BitVec 32) (more : Bool) : Prop where
  short : ∀ msg ∈ sent, msg.length ≤ mtu.toNat
  payloadLength : ∀ msg ∈ sent,
    (Endian.bigEndianToHost16 (payloadLength_be msg.memory msg.bytes)).toNat =
      msg.length - IP6Header_SIZE
  identifier : ∀ msg ∈ sent, identifier msg.memory msg.bytes = tag
  places : ∀ position byte, (∃ msg ∈ sent, Places msg position byte) ↔
    ∃ index, part[index]? = some byte ∧ position = offset + index
  flags : ∃ front last, sent = front ++ [last] ∧
    (∀ msg ∈ front, hasMoreFragments msg.memory msg.bytes = true) ∧
      hasMoreFragments last.memory last.bytes = more

theorem Carries.places_iff {msg : Message} {offset : ℕ} {part : List (BitVec 8)} {tag : BitVec 32}
    {more : Bool} (carries : Carries msg offset part tag more) (position : ℕ) (byte : BitVec 8) :
    Places msg position byte ↔ ∃ index, part[index]? = some byte ∧ position = offset + index := by
  rw [Places, carries.payload, carries.offset]

theorem Carries.leaves {msg : Message} {offset : ℕ} {part : List (BitVec 8)} {tag : BitVec 32}
    {more : Bool} (carries : Carries msg offset part tag more) : Leaves msg part tag more :=
  ⟨carries.length, carries.payload, carries.identifier, carries.more⟩

/-- A last fragment replaces what is left. -/
theorem Replaces.last {mtu : BitVec 32} {msg : Message} {offset : ℕ} {part : List (BitVec 8)}
    {tag : BitVec 32} {more : Bool} (carries : Carries msg offset part tag more)
    (short : msg.length ≤ mtu.toNat) : Replaces mtu [msg] offset part tag more where
  short := by
    intro other inside
    rwa [List.mem_singleton.mp inside]
  payloadLength := by
    intro other inside
    rw [List.mem_singleton.mp inside]
    exact carries.payloadLength
  identifier := by
    intro other inside
    rw [List.mem_singleton.mp inside]
    exact carries.identifier
  places := by
    intro position byte
    rw [← carries.places_iff]
    constructor
    · rintro ⟨other, inside, places⟩
      rwa [List.mem_singleton.mp inside] at places
    · intro places
      exact ⟨msg, List.mem_singleton_self _, places⟩
  flags := ⟨[], msg, rfl, by simp, carries.more⟩

/-- The positions of a payload in two parts -/
theorem placed_append (first second : List (BitVec 8)) (offset position : ℕ) (byte : BitVec 8) :
    (∃ index, (first ++ second)[index]? = some byte ∧ position = offset + index) ↔
      (∃ index, first[index]? = some byte ∧ position = offset + index) ∨
        ∃ index, second[index]? = some byte ∧ position = offset + first.length + index := by
  constructor
  · rintro ⟨index, found, rfl⟩
    rcases lt_or_ge index first.length with inside | past
    · rw [List.getElem?_append_left inside] at found
      exact .inl ⟨index, found, rfl⟩
    · rw [List.getElem?_append_right past] at found
      exact .inr ⟨index - first.length, found, by omega⟩
  · rintro (⟨index, found, rfl⟩ | ⟨index, found, rfl⟩)
    · have inside : index < first.length := (List.getElem?_eq_some_iff.mp found).1
      refine ⟨index, ?_, rfl⟩
      rw [List.getElem?_append_left inside, found]
    · refine ⟨first.length + index, ?_, by omega⟩
      rw [List.getElem?_append_right (Nat.le_add_right _ _), Nat.add_sub_cancel_left, found]

/-- A fragment in front of what replaces the rest -/
theorem Replaces.cons {mtu : BitVec 32} {msg : Message} {sent : List Message} {offset : ℕ}
    {first rest : List (BitVec 8)} {tag : BitVec 32} {more : Bool}
    (carries : Carries msg offset first tag true) (short : msg.length ≤ mtu.toNat)
    (replaces : Replaces mtu sent (offset + first.length) rest tag more) :
    Replaces mtu (msg :: sent) offset (first ++ rest) tag more where
  short := by
    intro other inside
    rcases List.mem_cons.mp inside with rfl | inside
    · exact short
    · exact replaces.short other inside
  payloadLength := by
    intro other inside
    rcases List.mem_cons.mp inside with rfl | inside
    · exact carries.payloadLength
    · exact replaces.payloadLength other inside
  identifier := by
    intro other inside
    rcases List.mem_cons.mp inside with rfl | inside
    · exact carries.identifier
    · exact replaces.identifier other inside
  places := by
    intro position byte
    rw [placed_append, ← carries.places_iff, ← replaces.places]
    constructor
    · rintro ⟨other, inside, places⟩
      rcases List.mem_cons.mp inside with rfl | inside
      · exact .inl places
      · exact .inr ⟨other, inside, places⟩
    · rintro (places | ⟨other, inside, places⟩)
      · exact ⟨msg, List.mem_cons_self, places⟩
      · exact ⟨other, List.mem_cons_of_mem _ inside, places⟩
  flags := by
    rcases replaces.flags with ⟨front, last, rfl, flagged, final⟩
    refine ⟨msg :: front, last, rfl, ?_, final⟩
    intro other inside
    rcases List.mem_cons.mp inside with rfl | inside
    · exact carries.more
    · exact flagged other inside

/-- The bytes of the payload that fit into a packet, in steps of eight -/
theorem share_eq {mtu : BitVec 32} (enough : 56 ≤ mtu.toNat) :
    share mtu = (mtu.toNat - headersSize) / 8 * 8 := by
  have := mtu.isLt
  have size : headersSize = 48 := rfl
  have less : (mtu - BitVec.ofNat 32 headersSize).toNat = mtu.toNat - headersSize := by
    rw [BitVec.toNat_sub_of_le, BitVec.toNat_ofNat]
    · rw [Nat.mod_eq_of_lt (by omega)]
    · rw [BitVec.le_def, BitVec.toNat_ofNat, Nat.mod_eq_of_lt (by omega)]
      omega
  have eight : (8 : BitVec 32).toNat = 8 := rfl
  rw [share, BitVec.toNat_mul, BitVec.toNat_udiv, less, eight, Nat.mod_eq_of_lt (by omega)]

/-- What is sent replaces what was to be sent, at the offset that the caller gives. -/
theorem sendFragmented_replaces (overwrites : ℕ → Memory) {mtu : BitVec 32}
    (enough : 56 ≤ mtu.toNat) {tag : BitVec 32} {more : Bool} :
    ∀ (size count : ℕ) (msg : Message) (offset : ℕ) (part : List (BitVec 8)),
      part.length ≤ size → Leaves msg part tag more → mtu.toNat < msg.length → 8 ∣ offset →
      offset + part.length + IP6Fragment_SIZE < 2 ^ 16 →
      ∃ sent, Fuel.Settles
        (fun fuel => sendFragmented overwrites mtu fuel count msg offset) (some sent) ∧
        Replaces mtu sent offset part tag more := by
  have headers : headersSize = 48 := rfl
  have behind : IP6Fragment_SIZE = 8 := rfl
  have front : IP6Header_SIZE = 40 := rfl
  have cut := share_eq enough
  intro size
  -- a fragment takes at least eight bytes of what is left
  induction size with
  | zero =>
      intro count msg offset part bounded leaves longer
      have := leaves.length
      omega
  | succ size ih =>
      intro count msg offset part bounded leaves longer aligned fits
      have total : msg.length = headersSize + part.length := leaves.length
      have fragment := sendFirst_spec (overwrites count) leaves aligned (by omega)
        (show share mtu < part.length by omega) (by omega)
      have sends := sendFirst_eq (overwrites count) offset
        (show headersSize + share mtu < msg.length by omega)
      have fit : (firstFragment mtu msg offset).length ≤ mtu.toNat := by
        change headersSize + share mtu ≤ mtu.toNat
        omega
      have taken : (part.take (share mtu)).length = share mtu :=
        List.length_take_of_le (by omega)
      have dropped : (part.drop (share mtu)).length = part.length - share mtu := List.length_drop
      have onward : 8 ∣ offset + share mtu := by omega
      have signed : mtu.toInt = mtu.toNat := by
        rw [BitVec.toInt_eq_toNat_of_lt]
        omega
      have left : (remainder (overwrites count) mtu msg offset).length =
          msg.length - share mtu := rfl
      by_cases again : mtu.toNat < msg.length - share mtu
      · rcases ih (count + 1) (remainder (overwrites count) mtu msg offset) (offset + share mtu)
          (part.drop (share mtu)) (by omega) fragment.2 (by omega) onward (by omega)
          with ⟨sent, settles, replaces⟩
        refine ⟨firstFragment mtu msg offset :: sent, ?_, ?_⟩
        · refine (settles.map (Option.map (firstFragment mtu msg offset :: ·))).succ ?_
          intro fuel
          rw [sendFragmented, sends, Option.bind_some]
          dsimp only
          rw [if_pos (by rw [left, signed]; omega)]
        · rw [← List.take_append_drop (share mtu) part]
          refine Replaces.cons fragment.1 fit ?_
          rwa [taken]
      · refine ⟨[firstFragment mtu msg offset,
          lastFragment (remainder (overwrites count) mtu msg offset) (offset + share mtu)], ?_, ?_⟩
        · refine Fuel.Settles.of_succ_eq ?_
          intro fuel
          rw [sendFragmented, sends, Option.bind_some]
          dsimp only
          rw [if_neg (by rw [left, signed]; omega)]
        · rw [← List.take_append_drop (share mtu) part]
          refine Replaces.cons fragment.1 fit ?_
          rw [taken]
          refine Replaces.last (fragment.2.carries onward (by omega) (by omega)) ?_
          change msg.length - share mtu ≤ mtu.toNat
          omega

/-- A packet with a fragment header that is longer than the MTU -/
structure Oversized (mtu : BitVec 32) (msg : Message) (offset : ℕ) (part : List (BitVec 8))
    (tag : BitVec 32) (more : Bool) : Prop where
  enough : 56 ≤ mtu.toNat
  version : getIpVersion msg.memory msg.bytes = 6
  fragment : nextHeader msg.memory msg.bytes = IP6Fragment_TYPE
  carries : Carries msg offset part tag more
  longer : mtu.toNat < msg.length

/-- The packet is sent in fragments that put its payload where it was. -/
def Reproduces (mtu : BitVec 32) (msg : Message) (offset : ℕ) (part : List (BitVec 8))
    (tag : BitVec 32) (more : Bool) : Prop :=
  ∀ overwrites, ∃ sent,
    Fuel.Settles (incoming overwrites mtu msg) (.fragments (some sent)) ∧
      Replaces mtu sent offset part tag more

namespace Oversized

variable {mtu : BitVec 32} {msg : Message} {offset : ℕ} {part : List (BitVec 8)} {tag : BitVec 32}
  {more : Bool}

theorem length_eq (oversized : Oversized mtu msg offset part tag more) :
    msg.length = headersSize + part.length :=
  oversized.carries.length

/-- The payload length of the packet has sixteen bits. -/
theorem fits (oversized : Oversized mtu msg offset part tag more) :
    part.length + IP6Fragment_SIZE < 2 ^ 16 := by
  have headers : headersSize = 48 := rfl
  have front : IP6Header_SIZE = 40 := rfl
  have behind : IP6Fragment_SIZE = 8 := rfl
  have total := oversized.length_eq
  have written := oversized.carries.payloadLength
  have := (Endian.bigEndianToHost16 (payloadLength_be msg.memory msg.bytes)).isLt
  omega

theorem incoming_eq (oversized : Oversized mtu msg offset part tag more)
    (overwrites : ℕ → Memory) (fuel : ℕ) : incoming overwrites mtu msg fuel =
      .fragments (sendFragmented overwrites mtu fuel 0 msg 0) := by
  have headers : headersSize = 48 := rfl
  have front : IP6Header_SIZE = 40 := rfl
  have behind : IP6Fragment_SIZE = 8 := rfl
  have total := oversized.length_eq
  have bound := oversized.fits
  have longer := oversized.longer
  have signed : mtu.toInt = mtu.toNat := by
    rw [BitVec.toInt_eq_toNat_of_lt]
    omega
  rw [incoming, if_pos ⟨by omega, oversized.version, by rw [signed]; omega⟩,
    if_pos oversized.fragment]

/-- The fragments put the payload at the start, wherever it was. -/
theorem replaces_at_start (oversized : Oversized mtu msg offset part tag more)
    (overwrites : ℕ → Memory) :
    ∃ sent, Fuel.Settles (incoming overwrites mtu msg) (.fragments (some sent)) ∧
      Replaces mtu sent 0 part tag more := by
  have bound := oversized.fits
  rcases sendFragmented_replaces overwrites oversized.enough part.length 0 msg 0 part le_rfl
    oversized.carries.leaves oversized.longer (dvd_zero 8) (by omega)
    with ⟨sent, settles, replaces⟩
  refine ⟨sent, ?_, replaces⟩
  have mapped := settles.map Handled.fragments
  rwa [← funext (oversized.incoming_eq overwrites)] at mapped

/-- The first byte of the payload has one position only. -/
theorem starts (oversized : Oversized mtu msg offset part tag more)
    (reproduces : Reproduces mtu msg offset part tag more) : offset = 0 := by
  have headers : headersSize = 48 := rfl
  have total := oversized.length_eq
  have enough := oversized.enough
  have longer := oversized.longer
  rcases reproduces fun _ _ => 0 with ⟨sent, settles, replaces⟩
  rcases oversized.replaces_at_start fun _ _ => 0 with ⟨other, settled, atStart⟩
  have same : sent = other := by
    simpa using settles.unique settled
  subst same
  have first : part[0]? = some (part.getD 0 0) := by
    rw [List.getElem?_eq_getElem (by omega), List.getD_eq_getElem _ _ (by omega)]
  rcases (replaces.places _ _).mp ((atStart.places 0 _).mpr ⟨0, first, rfl⟩) with
    ⟨index, -, start⟩
  omega

/-- The payload of a packet ends up where it was if and only if the packet is a first fragment. -/
theorem reproduces_iff (oversized : Oversized mtu msg offset part tag more) :
    Reproduces mtu msg offset part tag more ↔ offset = 0 := by
  constructor
  · exact oversized.starts
  · rintro rfl
    exact oversized.replaces_at_start

end Oversized

/-- A fragment of sixteen bytes, with a field for the offset and the flag -/
def sixteenBytes (field : BitVec 8) : Message where
  memory := fun place => ([0x60, 0, 0, 0, 0, 24, 44, 64] ++ List.replicate 32 0 ++
    [17, 0, 0, field, 1, 0, 0, 0] ++ [1, 2, 3, 4, 5, 6, 7, 8, 9, 10, 11, 12, 13, 14, 15, 16]).getD
      place.toNat 0
  length := 64
  padding := 0
  bytes := 0

theorem sixteenBytes_oversized : Oversized 56 (sixteenBytes 1) 0
    [1, 2, 3, 4, 5, 6, 7, 8, 9, 10, 11, 12, 13, 14, 15, 16] 1 true where
  enough := le_rfl
  version := by decide +kernel
  fragment := by decide +kernel
  carries := by constructor <;> decide +kernel
  longer := by decide

theorem reproduces_of_first_fragment : Reproduces 56 (sixteenBytes 1) 0
    [1, 2, 3, 4, 5, 6, 7, 8, 9, 10, 11, 12, 13, 14, 15, 16] 1 true :=
  sixteenBytes_oversized.reproduces_iff.mpr rfl

/-- The third block of eight bytes and the fourth are sent as the first and the second. -/
theorem later_fragment_moves : ¬ Reproduces 56 (sixteenBytes 25) 24
    [1, 2, 3, 4, 5, 6, 7, 8, 9, 10, 11, 12, 13, 14, 15, 16] 1 true := by
  intro reproduces
  have oversized : Oversized 56 (sixteenBytes 25) 24
      [1, 2, 3, 4, 5, 6, 7, 8, 9, 10, 11, 12, 13, 14, 15, 16] 1 true := by
    refine ⟨le_rfl, by decide +kernel, by decide +kernel, ?_, by decide⟩
    constructor <;> decide +kernel
  have := oversized.starts reproduces
  omega

end Cjdns.ICMP6Generator
