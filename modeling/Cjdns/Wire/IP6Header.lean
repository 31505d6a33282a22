import Cjdns.Util.Checksum
import Cjdns.Util.Endian

/-!
# IPv6 and UDP headers

The header of a packet that has left the memory of the switch is read from, and
written to, a string of bytes. What is read behind the end of the string is zero.
-/

namespace Cjdns

namespace Bytes

/-- A number of bytes from an offset on -/
def slice (bytes : List (BitVec 8)) (start count : ℕ) : List (BitVec 8) :=
  (List.range count).map fun index => bytes.getD (start + index) 0

/-- A big endian number of two bytes -/
def word16 (bytes : List (BitVec 8)) (start : ℕ) : BitVec 16 :=
  bytes.getD start 0 ++ bytes.getD (start + 1) 0

/-- The bytes of a big endian number -/
def ofWord16 (word : BitVec 16) : List (BitVec 8) :=
  [word.extractLsb' 8 8, word.extractLsb' 0 8]

/-- A word as the little endian host loads it -/
def load32 (bytes : List (BitVec 8)) : BitVec 32 :=
  bytes.getD 3 0 ++ bytes.getD 2 0 ++ bytes.getD 1 0 ++ bytes.getD 0 0

/-- A word as the little endian host stores it -/
def store32 (word : BitVec 32) : List (BitVec 8) :=
  [word.extractLsb' 0 8, word.extractLsb' 8 8, word.extractLsb' 16 8, word.extractLsb' 24 8]

@[simp]
theorem length_slice (bytes : List (BitVec 8)) (start count : ℕ) :
    (slice bytes start count).length = count := by
  simp [slice]

theorem slice_append {front middle : List (BitVec 8)} (rest : List (BitVec 8)) {start count : ℕ}
    (behind : front.length = start) (long : middle.length = count) :
    slice (front ++ (middle ++ rest)) start count = middle := by
  apply List.ext_getElem
  · rw [length_slice, long]
  · intro index inside within
    simp only [slice, List.getElem_map, List.getElem_range]
    rw [List.getD_append_right _ _ _ _ (by omega), behind, Nat.add_sub_cancel_left,
      List.getD_append _ _ _ _ within, List.getD_eq_getElem _ _ within]

theorem append_extract (word : BitVec 16) :
    word.extractLsb' 8 8 ++ word.extractLsb' 0 8 = word := by
  apply BitVec.eq_of_getLsbD_eq
  intro index inside
  rw [BitVec.getLsbD_append, BitVec.getLsbD_extractLsb', BitVec.getLsbD_extractLsb']
  by_cases low : index < 8
  · simp [low]
  · have high : index - 8 < 8 := by omega
    simp [low, high, show 8 + (index - 8) = index by omega]

end Bytes

/-- `Headers_IP6Header_SIZE` -/
abbrev IP6Header_SIZE : ℕ := 40

/-- `struct Headers_IP6Header`, with its numbers in host order -/
structure IP6Header where
  versionClassAndFlowLabel : BitVec 16
  flowLabelLow : BitVec 16
  payloadLength : BitVec 16
  nextHeader : BitVec 8
  hopLimit : BitVec 8
  sourceAddr : List (BitVec 8)
  destinationAddr : List (BitVec 8)
deriving DecidableEq

namespace IP6Header

/-- The header at the beginning of a message -/
def ofBytes (bytes : List (BitVec 8)) : IP6Header where
  versionClassAndFlowLabel := Bytes.word16 bytes 0
  flowLabelLow := Bytes.word16 bytes 2
  payloadLength := Bytes.word16 bytes 4
  nextHeader := bytes.getD 6 0
  hopLimit := bytes.getD 7 0
  sourceAddr := Bytes.slice bytes 8 16
  destinationAddr := Bytes.slice bytes 24 16

/-- The first eight bytes of a header -/
def numbers (header : IP6Header) : List (BitVec 8) :=
  Bytes.ofWord16 header.versionClassAndFlowLabel ++ Bytes.ofWord16 header.flowLabelLow ++
    Bytes.ofWord16 header.payloadLength ++ [header.nextHeader, header.hopLimit]

/-- The bytes of a header -/
def toBytes (header : IP6Header) : List (BitVec 8) :=
  header.numbers ++ (header.sourceAddr ++ header.destinationAddr)

/-- `Headers_getIpVersion` -/
def getIpVersion (header : IP6Header) : BitVec 16 :=
  header.versionClassAndFlowLabel >>> 12

/-- A header with whole addresses is read as it was written. -/
theorem ofBytes_toBytes (header : IP6Header) (rest : List (BitVec 8))
    (source : header.sourceAddr.length = 16) (destination : header.destinationAddr.length = 16) :
    ofBytes (header.toBytes ++ rest) = header := by
  have first : Bytes.slice (header.toBytes ++ rest) 8 16 = header.sourceAddr := by
    rw [toBytes, List.append_assoc, List.append_assoc]
    exact Bytes.slice_append _ rfl source
  have second : Bytes.slice (header.toBytes ++ rest) 24 16 = header.destinationAddr := by
    rw [toBytes, ← List.append_assoc header.numbers, List.append_assoc _ header.destinationAddr]
    refine Bytes.slice_append _ ?_ destination
    rw [List.length_append, source]
    rfl
  rw [ofBytes, first, second]
  simp [toBytes, numbers, Bytes.word16, Bytes.ofWord16, Bytes.append_extract]

end IP6Header

/-- `Headers_UDPHeader_SIZE` -/
abbrev UDPHeader_SIZE : ℕ := 8

namespace Checksum

/-- `Checksum_step32` -/
def step32 (content state : BitVec 32) : BitVec 32 :=
  state + (content >>> 16) + (content &&& 0xFFFF)

/-- `Checksum_Ip6` -/
def ip6 (memory : Memory) (sourceAndDestAddrs packetHeaderAndContent : ℤ) (length : BitVec 16)
    (packetType_be : BitVec 32) : BitVec 16 :=
  let sum := step memory sourceAndDestAddrs 32 0
  let sum := step32 (Endian.hostToBigEndian32 (length.setWidth 32)) sum
  let sum := step32 packetType_be sum
  complete (step memory packetHeaderAndContent length.toNat sum)

/-- `Checksum_udpIp6`, for the addresses of a header -/
def udpIp6 (header : IP6Header) (udpHeaderAndContent : List (BitVec 8)) : BitVec 16 :=
  let bytes := header.sourceAddr ++ header.destinationAddr ++ udpHeaderAndContent
  ip6 (Memory.write (fun _ => 0) 0 bytes) 0 32 (BitVec.ofNat 16 udpHeaderAndContent.length)
    (Endian.hostToBigEndian32 17)

end Checksum

end Cjdns
