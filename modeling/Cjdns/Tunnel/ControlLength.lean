import Cjdns.Tunnel.IssuedAddresses
import Cjdns.Util.ChecksumLaw

/-!
# The length of control messages

The length of a control message is that of its packet less the eight bytes of the UDP header, which
wraps around if there are fewer. But then the numbers that would have to be in the header can not
make the checksum right, since the addresses are zero.
-/

namespace Cjdns.IpTunnel

/-- The payload length in the header of a packet -/
def payloadLength (message : Message) : BitVec 16 :=
  Endian.bigEndianToHost16 (message.memory.load (message.bytes + 4) 16)

/-- What `isControlMessageInvalid` reads -/
def controlContentReads (message : Message) : List Span :=
  let memory := message.memory
  let header := message.bytes
  let length := payloadLength message
  [⟨header + 4, 2⟩, ⟨header + 6, 1⟩] ++
    if memory (header + 6) ≠ 17 ∨ message.length < length.toNat + IP6Header_SIZE then []
    else
      let udp := header + IP6Header_SIZE
      [⟨header + 8, 32⟩, ⟨udp, length.toNat⟩] ++
        if Checksum.ip6 memory (header + 8) udp length (Endian.hostToBigEndian32 17) ≠ 0 then []
        else
          let length := length - BitVec.ofNat 16 UDPHeader_SIZE
          ⟨udp + 4, 2⟩ ::
            if Endian.bigEndianToHost16 (memory.load (udp + 4) 16) ≠ length then []
            else [⟨udp, 4⟩]

variable {memory : Memory} {udp : ℤ} {length : BitVec 16} {message : Message}

/-! ## Checksums of packets that are too short -/

theorem stepLoop_of_zero {address : ℤ} {pairs : ℕ} (state : BitVec 32)
    (zero : ∀ place : ℕ, place < 2 * pairs → memory (address + place) = 0) :
    Checksum.stepLoop memory address pairs state = state := by
  induction pairs with
  | zero => rfl
  | succ pairs ih =>
      have word : memory.load (address + 2 * pairs) 16 = 0 := by
        rw [← Memory.load_zero (address + 2 * pairs)]
        apply Memory.load_congr
        intro place lower upper
        have byte := zero (place - address).toNat (by omega)
        rwa [show address + ((place - address).toNat : ℤ) = place by omega] at byte
      rw [Checksum.stepLoop, ih fun place small => zero place (by omega), word]
      simp

/-- The sum of the pseudo header if the addresses are zero -/
theorem pseudoHeader_of_zero {addresses : ℤ} (zero : memory.load addresses 256 = 0)
    (short : length.toNat < 8) :
    Checksum.ip6 memory addresses udp length (Endian.hostToBigEndian32 17) =
      Checksum.complete (Checksum.step memory udp length.toNat
        (BitVec.ofNat 32 (256 * (length.toNat + 17)))) := by
  have sum : Checksum.step memory addresses 32 0 = 0 := by
    rw [Checksum.step]
    exact stepLoop_of_zero 0 fun place small =>
      @Memory.apply_of_load_eq_zero memory addresses 32 place zero small
  rw [Checksum.ip6, sum]
  have number : length = BitVec.ofNat 16 length.toNat := by simp
  generalize length.toNat = count at short number
  subst number
  interval_cases count <;> rfl

/-- An odd byte at the end, if there is one -/
theorem toNat_step_eq {pairs : ℕ} {state : BitVec 32} {odd : ℕ} (bit : odd < 2)
    (small : (Checksum.stepLoop memory udp pairs state).toNat < 2 ^ 31) :
    ∃ byte : ℕ, byte < 256 ∧ (Checksum.step memory udp (2 * pairs + odd) state).toNat =
      (Checksum.stepLoop memory udp pairs state).toNat + byte := by
  rw [Checksum.step, show (2 * pairs + odd) / 2 = pairs by omega]
  split_ifs with isOdd
  · have byte := (memory (udp + (2 * pairs + odd : ℕ) - 1)).isLt
    refine ⟨_, byte, ?_⟩
    rw [BitVec.toNat_add, BitVec.toNat_setWidth]
    omega
  · exact ⟨0, by norm_num, rfl⟩

/-- A header whose length wraps around does not make the checksum right. -/
theorem ip6_ne_zero {addresses : ℤ} (zero : memory.load addresses 256 = 0)
    (short : length.toNat < 8) (ports : memory.load udp 32 = 0)
    (same : memory.load (udp + 4) 16 = Endian.byteSwap16 (length - 8)) :
    Checksum.ip6 memory addresses udp length (Endian.hostToBigEndian32 17) ≠ 0 := by
  have front (pairs : ℕ) (few : pairs ≤ 2) (state : BitVec 32) :
      Checksum.stepLoop memory udp pairs state = state :=
    stepLoop_of_zero state fun place small =>
      @Memory.apply_of_load_eq_zero memory udp 4 place ports (by omega)
  rw [pseudoHeader_of_zero zero short, Ne, Checksum.Host.complete_eq_zero_iff]
  rintro ⟨-, multiple⟩
  have number : length = BitVec.ofNat 16 length.toNat := by simp
  generalize length.toNat = count at short number multiple
  rw [number] at same
  rcases lt_or_ge count 6 with few | many
  · have start : (Checksum.stepLoop memory udp (count / 2)
        (BitVec.ofNat 32 (256 * (count + 17)))).toNat = 256 * (count + 17) := by
      rw [front _ (by omega), BitVec.toNat_ofNat]
      omega
    rcases @toNat_step_eq memory udp (count / 2) _ (count % 2) (by omega)
      (by rw [start]; omega) with ⟨byte, small, sum⟩
    rw [Nat.div_add_mod, start] at sum
    rw [sum] at multiple
    have above := Nat.le_of_dvd (by omega) multiple
    omega
  · have last : Checksum.stepLoop memory udp 3 (BitVec.ofNat 32 (256 * (count + 17))) =
        BitVec.ofNat 32 (256 * (count + 17)) +
          (Endian.byteSwap16 (BitVec.ofNat 16 count - 8)).setWidth 32 := by
      rw [Checksum.stepLoop, front 2 le_rfl, ← same]
      rfl
    have start : (Checksum.stepLoop memory udp 3
        (BitVec.ofNat 32 (256 * (count + 17)))).toNat = 65535 + 256 * (22 + 2 * (count - 6)) := by
      rw [last]
      interval_cases count <;> rfl
    rcases @toNat_step_eq memory udp 3 _ (count - 6) (by omega) (by rw [start]; omega) with
      ⟨byte, small, sum⟩
    rw [show 2 * 3 + (count - 6) = count by omega, start] at sum
    rw [sum, Nat.add_assoc] at multiple
    have above := Nat.le_of_dvd (by omega) ((Nat.dvd_add_right dvd_rfl).mp multiple)
    omega

/-! ## Messages -/

/-- The length in the UDP header of a packet -/
def udpLength (message : Message) : BitVec 16 :=
  Endian.bigEndianToHost16 (message.memory.load (message.bytes + IP6Header_SIZE + 4) 16)

/-- The content of a packet is the payload of its UDP header, and only the packet is looked at. -/
structure PayloadOf (message content : Message) : Prop where
  header : UDPHeader_SIZE ≤ (payloadLength message).toNat
  payload : content.length + UDPHeader_SIZE = (payloadLength message).toNat
  length_eq : content.length = (udpLength message).toNat
  received : content.length + (IP6Header_SIZE + UDPHeader_SIZE) ≤ message.length
  memory_eq : content.memory = message.memory
  bytes_eq : content.bytes = message.bytes + (IP6Header_SIZE + UDPHeader_SIZE)
  reads : ∀ span ∈ controlContentReads message, span.Within message

/-- A packet with a whole UDP header is not read beyond its end. -/
theorem controlContentReads_within (header : 8 ≤ (payloadLength message).toNat)
    (fits : (payloadLength message).toNat + 40 ≤ message.length) :
    ∀ span ∈ controlContentReads message, span.Within message := by
  have reads {place : ℤ} {size : ℕ} (inside : place + size ≤ message.bytes + message.length) :
      Span.Within message ⟨place, size⟩ := inside
  simp only [controlContentReads]
  simp only [List.forall_mem_append, List.forall_mem_cons]
  refine ⟨⟨reads (by omega), reads (by omega), List.forall_mem_nil _⟩, ?_⟩
  split_ifs
  · exact List.forall_mem_nil _
  · simp only [List.forall_mem_append, List.forall_mem_cons]
    refine ⟨⟨reads (by omega), reads (by push_cast; omega), List.forall_mem_nil _⟩, ?_⟩
    exact List.forall_mem_nil _
  · simp only [List.forall_mem_append, List.forall_mem_cons]
    refine ⟨⟨reads (by omega), reads (by push_cast; omega), List.forall_mem_nil _⟩,
      reads (by push_cast; omega), ?_⟩
    exact List.forall_mem_nil _
  · simp only [List.forall_mem_append, List.forall_mem_cons]
    refine ⟨⟨reads (by omega), reads (by push_cast; omega), List.forall_mem_nil _⟩,
      reads (by push_cast; omega), reads (by push_cast; omega), ?_⟩
    exact List.forall_mem_nil _

theorem controlContent_cases (long : 40 < message.length)
    (unaddressed : message.memory.load (message.bytes + 8) 256 = 0) :
    controlContent message = some none ∨
      ∃ content, controlContent message = some (some content) ∧ PayloadOf message content := by
  have shifts : message.shift (-IP6Header_SIZE) = some { message with
      length := message.length - IP6Header_SIZE
      bytes := message.bytes + IP6Header_SIZE
      padding := message.padding + IP6Header_SIZE } := Message.shift_neg message (le_of_lt long)
  by_cases unfit : message.memory (message.bytes + 6) ≠ 17 ∨
      message.length < (payloadLength message).toNat + IP6Header_SIZE
  · exact .inl (if_pos unfit)
  have first : controlContent message = _ := if_neg unfit
  rw [shifts, Option.bind_some] at first
  by_cases mismatch : Checksum.ip6 message.memory (message.bytes + 8)
      (message.bytes + IP6Header_SIZE) (payloadLength message) (Endian.hostToBigEndian32 17) ≠ 0
  · exact .inl (first.trans (if_pos mismatch))
  have second := first.trans (if_neg mismatch)
  by_cases differs : udpLength message ≠ payloadLength message - BitVec.ofNat 16 UDPHeader_SIZE ∨
      message.memory.load (message.bytes + IP6Header_SIZE) 32 ≠ 0
  · exact .inl (second.trans (if_pos differs))
  have third := second.trans (if_neg differs)
  have fits : (payloadLength message).toNat + 40 ≤ message.length :=
    not_lt.mp (not_or.mp unfit).2
  rcases not_or.mp differs with ⟨same, ports⟩
  have header : 8 ≤ (payloadLength message).toNat := by
    by_contra short
    apply ip6_ne_zero unaddressed (not_le.mp short) (not_not.mp ports) _ (not_not.mp mismatch)
    rw [← Endian.byteSwap16_byteSwap16 (message.memory.load _ 16)]
    exact congrArg Endian.byteSwap16 (not_not.mp same)
  have length : (payloadLength message - BitVec.ofNat 16 UDPHeader_SIZE).toNat + 8 =
      (payloadLength message).toNat := by
    rw [BitVec.toNat_sub_of_le (show BitVec.ofNat 16 8 ≤ payloadLength message from header)]
    exact Nat.sub_add_cancel header
  rw [Message.shift_neg _ (show 8 ≤ message.length - 40 by omega),
    Option.map_some] at third
  refine .inr ⟨_, third, header, length, ?_, ?_, rfl, ?_, controlContentReads_within header fits⟩
  · exact congrArg BitVec.toNat (not_not.mp same).symm
  · change (payloadLength message - BitVec.ofNat 16 UDPHeader_SIZE).toNat + 48 ≤ _
    omega
  · change message.bytes + (40 : ℕ) + (8 : ℕ) = message.bytes + ((40 : ℕ) + (8 : ℕ))
    omega

/-- Control messages are checked without a failure of an assertion, and those that are valid have
the length of the UDP payload. -/
theorem controlContent_length (long : 40 < message.length)
    (unaddressed : message.memory.load (message.bytes + 8) 256 = 0) :
    (controlContent message).isSome ∧
      ∀ content, controlContent message = some (some content) → PayloadOf message content := by
  rcases controlContent_cases long unaddressed with invalid | ⟨other, valid, payload⟩
  · rw [invalid]
    exact ⟨rfl, fun content impossible => by cases impossible⟩
  · rw [valid]
    refine ⟨rfl, fun content same => ?_⟩
    cases same
    exact payload

/-- A control message with one byte of content -/
def oneByte : Message where
  memory place := ([0x60, 0, 0, 0, 0, 9, 17, 42] ++ List.replicate 32 0 ++
    [0, 0, 0, 0, 0, 1, 0x9B, 0xE4, 0x64]).getD place.toNat 0
  length := 49
  padding := 0
  bytes := 0

theorem controlContent_length_oneByte :
    ∃ content, controlContent oneByte = some (some content) ∧ PayloadOf oneByte content := by
  have law := @controlContent_length oneByte (by decide) (by decide +kernel)
  have valid : ((controlContent oneByte).map Option.isSome) = some true := by decide +kernel
  rcases Option.map_eq_some_iff.mp valid with ⟨outcome, returned, isSome⟩
  rcases Option.isSome_iff_exists.mp isSome with ⟨content, rfl⟩
  exact ⟨content, returned, law.2 content returned⟩

end Cjdns.IpTunnel
