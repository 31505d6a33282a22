import Cjdns.Library.OnesComplement
import Cjdns.Wire.IP6Header

/-!
# The law of the checksum

On a host of either byte order the checksums are the complements of one's complement sums. A field
that is given the checksum makes the sum a multiple of 65535, which a changed word can not leave
it, and sums over buffers of up to 65535 bytes stay far below 2 ^ 32. The buffers are aligned, as
the assertions demand.
-/

namespace Cjdns.Checksum

/-- A host, of which `Endian_isBigEndian` tells the byte order -/
structure Host where
  isBigEndian : Bool

namespace Host

/-- `Endian_hostToBigEndian32` -/
def hostToBigEndian32 (host : Host) (input : BitVec 32) : BitVec 32 :=
  if host.isBigEndian then input else Endian.byteSwap32 input

/-- A 16-bit word of a buffer -/
def word (host : Host) (buffer : List (BitVec 8)) (index : ℕ) : BitVec 16 :=
  let first := buffer.getD (2 * index) 0
  let second := buffer.getD (2 * index + 1) 0
  if host.isBigEndian then first ++ second else second ++ first

/-- Assignment to a 16-bit word of a buffer -/
def setWord (host : Host) (buffer : List (BitVec 8)) (index : ℕ) (value : BitVec 16) :
    List (BitVec 8) :=
  let high := value.extractLsb' 8 8
  let low := value.extractLsb' 0 8
  let first := if host.isBigEndian then high else low
  let second := if host.isBigEndian then low else high
  (buffer.set (2 * index) first).set (2 * index + 1) second

/-- The loop of `Checksum_step` over the pairs of bytes -/
def stepLoop (host : Host) (buffer : List (BitVec 8)) : ℕ → BitVec 32 → BitVec 32
  | 0, state => state
  | pairs + 1, state => host.stepLoop buffer pairs state + (host.word buffer pairs).setWidth 32

/-- What an odd byte counts as -/
def oddByte (host : Host) (buffer : List (BitVec 8)) : BitVec 32 :=
  let byte := (buffer.getD (buffer.length - 1) 0).setWidth 32
  if host.isBigEndian then byte <<< 8 else byte

/-- `Checksum_step` over a whole buffer -/
def step (host : Host) (buffer : List (BitVec 8)) (state : BitVec 32) : BitVec 32 :=
  let state := host.stepLoop buffer (buffer.length / 2) state
  if buffer.length % 2 ≠ 0 then state + host.oddByte buffer else state

/-- `Checksum_engine` over a whole buffer -/
def engine (host : Host) (buffer : List (BitVec 8)) : BitVec 16 :=
  complete (host.step buffer 0)

/-- The sum of `Checksum_Ip6` before the content -/
def pseudoHeader (host : Host) (sourceAndDestAddrs : List.Vector (BitVec 8) 32)
    (length : BitVec 16) (packetType_be : BitVec 32) : BitVec 32 :=
  let sum := host.step sourceAndDestAddrs.toList 0
  let length_be := host.hostToBigEndian32 (length.setWidth 32)
  step32 packetType_be (step32 length_be sum)

/-- `Checksum_Ip6` -/
def ip6 (host : Host) (sourceAndDestAddrs : List.Vector (BitVec 8) 32)
    (packetHeaderAndContent : List (BitVec 8)) (packetType_be : BitVec 32) : BitVec 16 :=
  let length := BitVec.ofNat 16 packetHeaderAndContent.length
  complete (host.step packetHeaderAndContent
    (host.pseudoHeader sourceAndDestAddrs length packetType_be))

/-- `Checksum_udpIp6` -/
def udpIp6 (host : Host) (sourceAndDestAddrs : List.Vector (BitVec 8) 32)
    (udpHeaderAndContent : List (BitVec 8)) : BitVec 16 :=
  host.ip6 sourceAndDestAddrs udpHeaderAndContent (host.hostToBigEndian32 17)

/-- `Checksum_icmp6` -/
def icmp6 (host : Host) (sourceAndDestAddrs : List.Vector (BitVec 8) 32)
    (icmpHeaderAndContent : List (BitVec 8)) : BitVec 16 :=
  host.ip6 sourceAndDestAddrs icmpHeaderAndContent (host.hostToBigEndian32 58)

variable {host : Host} {buffer : List (BitVec 8)} {field : ℕ} {value : BitVec 16}
  {state : BitVec 32}

/-! ## Words -/

@[simp]
theorem length_setWord : (host.setWord buffer field value).length = buffer.length := by
  simp [setWord]

theorem toNat_word_le (index : ℕ) : (host.word buffer index).toNat ≤ 65535 :=
  Nat.le_of_lt_succ (host.word buffer index).isLt

/-- The bytes of a buffer after an assignment -/
theorem getD_setWord (inside : 2 * field + 2 ≤ buffer.length) (place : ℕ) :
    (host.setWord buffer field value).getD place 0 =
      if place = 2 * field then
        if host.isBigEndian then value.extractLsb' 8 8 else value.extractLsb' 0 8
      else if place = 2 * field + 1 then
        if host.isBigEndian then value.extractLsb' 0 8 else value.extractLsb' 8 8
      else buffer.getD place 0 := by
  simp only [setWord, List.getD_eq_getElem?_getD, List.getElem?_set, List.length_set]
  split_ifs <;> first | omega | rfl

theorem word_setWord (inside : 2 * field + 2 ≤ buffer.length) (index : ℕ) :
    host.word (host.setWord buffer field value) index =
      if index = field then value else host.word buffer index := by
  simp only [word, getD_setWord inside]
  by_cases same : index = field
  · have apart : ¬ 2 * field + 1 = 2 * field := by omega
    simp only [same, apart, if_true, if_false]
    split_ifs <;> exact Bytes.append_extract value
  · have lower : ¬ 2 * index = 2 * field := by omega
    have lowerUpper : ¬ 2 * index = 2 * field + 1 := by omega
    have upperLower : ¬ 2 * index + 1 = 2 * field := by omega
    have upper : ¬ 2 * index + 1 = 2 * field + 1 := by omega
    simp only [same, lower, lowerUpper, upperLower, upper, if_false]

theorem oddByte_setWord (inside : 2 * field + 2 ≤ buffer.length)
    (odd : buffer.length % 2 ≠ 0) :
    host.oddByte (host.setWord buffer field value) = host.oddByte buffer := by
  have lower : ¬ buffer.length - 1 = 2 * field := by omega
  have upper : ¬ buffer.length - 1 = 2 * field + 1 := by omega
  simp only [oddByte, length_setWord, getD_setWord inside, lower, upper, if_false]

/-! ## Sums -/

/-- The sum of the words of a buffer, before the one with the given number -/
def wordSum (host : Host) (buffer : List (BitVec 8)) (pairs : ℕ) : ℕ :=
  ∑ index ∈ Finset.range pairs, (host.word buffer index).toNat

/-- What an odd byte adds to the sum -/
def oddSum (host : Host) (buffer : List (BitVec 8)) : ℕ :=
  if buffer.length % 2 ≠ 0 then (host.oddByte buffer).toNat else 0

/-- What `step` adds -/
def sum (host : Host) (buffer : List (BitVec 8)) : ℕ :=
  host.wordSum buffer (buffer.length / 2) + host.oddSum buffer

theorem wordSum_le (pairs : ℕ) : host.wordSum buffer pairs ≤ pairs * 65535 := by
  have bound := Finset.sum_le_card_nsmul (Finset.range pairs)
    (fun index => (host.word buffer index).toNat) 65535 fun index _ => toNat_word_le index
  rw [Finset.card_range, smul_eq_mul] at bound
  exact bound

theorem toNat_oddByte_le : (host.oddByte buffer).toNat ≤ 65280 := by
  have byte := (buffer.getD (buffer.length - 1) 0).isLt
  rw [oddByte]
  split_ifs
  · rw [BitVec.toNat_shiftLeft, BitVec.toNat_setWidth, Nat.shiftLeft_eq]
    omega
  · rw [BitVec.toNat_setWidth]
    omega

theorem oddSum_le : host.oddSum buffer ≤ 65280 := by
  rw [oddSum]
  split_ifs
  · exact toNat_oddByte_le
  · exact Nat.zero_le _

theorem toNat_stepLoop {pairs : ℕ} (fits : state.toNat + host.wordSum buffer pairs < 2 ^ 32) :
    (host.stepLoop buffer pairs state).toNat = state.toNat + host.wordSum buffer pairs := by
  induction pairs with
  | zero => rfl
  | succ pairs ih =>
      rw [wordSum, Finset.sum_range_succ, ← wordSum] at fits ⊢
      have word := (host.word buffer pairs).isLt
      rw [stepLoop, BitVec.toNat_add, ih (by omega), BitVec.toNat_setWidth,
        Nat.mod_eq_of_lt (a := (host.word buffer pairs).toNat) (by omega)]
      omega

theorem toNat_step (fits : state.toNat + host.sum buffer < 2 ^ 32) :
    (host.step buffer state).toNat = state.toNat + host.sum buffer := by
  rw [sum, oddSum] at fits ⊢
  have loop := @toNat_stepLoop host buffer state (buffer.length / 2) (by omega)
  rw [step]
  split_ifs at fits ⊢
  · rw [BitVec.toNat_add, loop]
    omega
  · rw [loop]
    omega

/-- An assignment changes the sum by the difference of the words. -/
theorem sum_setWord (inside : 2 * field + 2 ≤ buffer.length) :
    host.sum (host.setWord buffer field value) + (host.word buffer field).toNat =
      host.sum buffer + value.toNat := by
  have member : field ∈ Finset.range (buffer.length / 2) := Finset.mem_range.mpr (by omega)
  have others : ∑ index ∈ (Finset.range (buffer.length / 2)).erase field,
      (host.word (host.setWord buffer field value) index).toNat =
        ∑ index ∈ (Finset.range (buffer.length / 2)).erase field,
          (host.word buffer index).toNat := by
    apply Finset.sum_congr rfl
    intro index other
    rw [word_setWord inside, if_neg (Finset.ne_of_mem_erase other)]
  have odd : host.oddSum (host.setWord buffer field value) = host.oddSum buffer := by
    rw [oddSum, oddSum, length_setWord]
    split_ifs with odd
    · rw [oddByte_setWord inside odd]
    · rfl
  rw [sum, sum, odd, wordSum, wordSum, length_setWord, ← Finset.add_sum_erase _ _ member,
    ← Finset.add_sum_erase _ (fun index => (host.word buffer index).toNat) member, others,
    word_setWord inside, if_pos rfl]
  omega

/-! ## Checksums -/

theorem folds_completeLoop {rounds : ℕ} (ended : (completeLoop rounds state).toNat ≤ 0xFFFF) :
    OnesComplement.Folds 65536 state.toNat (completeLoop rounds state).toNat := by
  induction rounds generalizing state with
  | zero => exact .of_digit (Nat.lt_succ_of_le ended)
  | succ rounds ih =>
      rw [completeLoop] at ended ⊢
      split_ifs at ended ⊢
      · have folds := ih ended
        rw [toNat_fold] at folds
        exact folds.of_carry (by norm_num)
      · exact .of_digit (Nat.lt_succ_of_le ended)

theorem folds_complete (state : BitVec 32) :
    OnesComplement.Folds 65536 state.toNat (65535 - (complete state).toNat) ∧
      (complete state).toNat ≤ 65535 := by
  have ended := completeLoop_le state
  have folds := folds_completeLoop ended
  have complement : (complete state).toNat = 65535 - (completeLoop 2 state).toNat := by
    rw [complete, BitVec.toNat_not, BitVec.toNat_setWidth]
    omega
  rw [complement, Nat.sub_sub_self ended]
  exact ⟨folds, Nat.sub_le _ _⟩

/-- The checksum is zero exactly if the sum is a positive multiple of 65535. -/
theorem complete_eq_zero_iff (state : BitVec 32) :
    complete state = 0 ↔ 0 < state.toNat ∧ 65535 ∣ state.toNat := by
  rcases folds_complete state with ⟨folds, bound⟩
  rw [← folds.eq_greatest_iff (by norm_num), ← BitVec.toNat_inj]
  change _ = 0 ↔ _
  omega

/-- A sum and its checksum -/
theorem dvd_add_complete (state : BitVec 32) :
    65535 ∣ state.toNat + (complete state).toNat ∧ 0 < state.toNat + (complete state).toNat := by
  rcases folds_complete state with ⟨folds, bound⟩
  have multiple := folds.add_complement
  rw [show 65536 - 1 - (65535 - (complete state).toNat) = (complete state).toNat by omega]
    at multiple
  refine ⟨multiple, ?_⟩
  by_contra none
  have positive := folds.pos_iff
  omega

/-- What is to be expected of a checksum -/
structure Law (host : Host) (checksum : List (BitVec 8) → BitVec 16) : Prop where
  /-- A field that is given the checksum makes the checksum zero. -/
  stored : ∀ buffer field, buffer.length ≤ 65535 → 2 * field + 2 ≤ buffer.length →
    checksum (host.setWord buffer field (checksum (host.setWord buffer field 0))) = 0
  /-- A changed word makes it something else. -/
  detects : ∀ buffer field value, buffer.length ≤ 65535 → 2 * field + 2 ≤ buffer.length →
    checksum buffer = 0 → ¬ value.toNat ≡ (host.word buffer field).toNat [MOD 65535] →
      checksum (host.setWord buffer field value) ≠ 0

/-- The complement of a sum that begins with a number for the length obeys the law. -/
theorem law_of_sum {checksum : List (BitVec 8) → BitVec 16} {start : ℕ → BitVec 32}
    (complement : ∀ buffer, checksum buffer = complete (host.step buffer (start buffer.length)))
    (fits : ∀ buffer : List (BitVec 8), buffer.length ≤ 65535 →
      (start buffer.length).toNat + host.sum buffer < 2 ^ 32) :
    host.Law checksum := by
  have total (buffer : List (BitVec 8)) (small : buffer.length ≤ 65535) :
      (host.step buffer (start buffer.length)).toNat =
        (start buffer.length).toNat + host.sum buffer := toNat_step (fits buffer small)
  constructor
  · intro buffer field small inside
    have zeroed := total (host.setWord buffer field 0) (by rw [length_setWord]; exact small)
    have whole := total
      (host.setWord buffer field (checksum (host.setWord buffer field 0)))
      (by rw [length_setWord]; exact small)
    have first := @sum_setWord host buffer field 0 inside
    have second := @sum_setWord host buffer field (checksum (host.setWord buffer field 0)) inside
    have balance := dvd_add_complete
      (host.step (host.setWord buffer field 0) (start (host.setWord buffer field 0).length))
    rw [← complement] at balance
    rw [length_setWord] at zeroed whole balance
    rw [complement, complete_eq_zero_iff, length_setWord]
    have same : (host.step (host.setWord buffer field
        (checksum (host.setWord buffer field 0))) (start buffer.length)).toNat =
        (host.step (host.setWord buffer field 0) (start buffer.length)).toNat +
          (checksum (host.setWord buffer field 0)).toNat := by
      rw [show (0 : BitVec 16).toNat = 0 from rfl] at first
      omega
    rw [same]
    exact balance.symm
  · intro buffer field value small inside valid different zero
    have changed := @sum_setWord host buffer field value inside
    rw [complement, complete_eq_zero_iff] at valid zero
    rw [length_setWord] at zero
    have before := total buffer small
    have after := total (host.setWord buffer field value) (by rw [length_setWord]; exact small)
    rw [length_setWord] at after
    apply different
    have balance : (host.step (host.setWord buffer field value) (start buffer.length)).toNat +
        (host.word buffer field).toNat =
          (host.step buffer (start buffer.length)).toNat + value.toNat := by
      omega
    have left := Nat.ModEq.add_right (host.word buffer field).toNat
      (Nat.modEq_zero_iff_dvd.mpr zero.2)
    have right := Nat.ModEq.add_right value.toNat (Nat.modEq_zero_iff_dvd.mpr valid.2)
    rw [Nat.zero_add] at left right
    rw [balance] at left
    exact right.symm.trans left

/-! ## No sum is too great -/

/-- The additions of `step` -/
def StepFits (host : Host) (buffer : List (BitVec 8)) (state : BitVec 32) : Prop :=
  (∀ pairs, pairs < buffer.length / 2 →
    (host.stepLoop buffer pairs state).toNat + (host.word buffer pairs).toNat < 2 ^ 32) ∧
  (buffer.length % 2 ≠ 0 →
    (host.stepLoop buffer (buffer.length / 2) state).toNat + (host.oddByte buffer).toNat < 2 ^ 32)

/-- The additions of `step32` -/
def Step32Fits (content state : BitVec 32) : Prop :=
  state.toNat + (content >>> 16).toNat + (content &&& 0xFFFF).toNat < 2 ^ 32

/-- The additions of `completeLoop` -/
def FoldFits (state : BitVec 32) : Prop :=
  (state >>> 16).toNat + (state &&& 0xFFFF).toNat < 2 ^ 32

/-- The additions of `ip6` -/
structure Ip6Fits (host : Host) (sourceAndDestAddrs : List.Vector (BitVec 8) 32)
    (packetHeaderAndContent : List (BitVec 8)) (packetType_be : BitVec 32) : Prop where
  addresses : host.StepFits sourceAndDestAddrs.toList 0
  length : Step32Fits
    (host.hostToBigEndian32 ((BitVec.ofNat 16 packetHeaderAndContent.length).setWidth 32))
    (host.step sourceAndDestAddrs.toList 0)
  packetType : Step32Fits packetType_be (step32
    (host.hostToBigEndian32 ((BitVec.ofNat 16 packetHeaderAndContent.length).setWidth 32))
    (host.step sourceAndDestAddrs.toList 0))
  content : host.StepFits packetHeaderAndContent (host.pseudoHeader sourceAndDestAddrs
    (BitVec.ofNat 16 packetHeaderAndContent.length) packetType_be)

theorem stepFits (fits : state.toNat + host.sum buffer < 2 ^ 32) :
    host.StepFits buffer state := by
  rw [sum, oddSum] at fits
  have upTo (pairs : ℕ) (le : pairs ≤ buffer.length / 2) :
      host.wordSum buffer pairs ≤ host.wordSum buffer (buffer.length / 2) :=
    Finset.sum_le_sum_of_subset (Finset.range_subset_range.mpr le)
  constructor
  · intro pairs less
    have next := upTo (pairs + 1) less
    rw [wordSum, Finset.sum_range_succ, ← wordSum] at next
    rw [toNat_stepLoop (by omega)]
    omega
  · intro odd
    rw [if_pos odd] at fits
    rw [toNat_stepLoop (by omega)]
    omega

theorem sum_le (buffer : List (BitVec 8)) :
    host.sum buffer ≤ buffer.length / 2 * 65535 + 65280 :=
  Nat.add_le_add (wordSum_le _) oddSum_le

theorem toNat_halves (content : BitVec 32) :
    (content >>> 16).toNat ≤ 65535 ∧ (content &&& 0xFFFF).toNat ≤ 65535 := by
  have bound := content.isLt
  rw [BitVec.toNat_ushiftRight, Nat.shiftRight_eq_div_pow, BitVec.toNat_and]
  exact ⟨by omega, Nat.and_le_right⟩

theorem step32Fits (content : BitVec 32) (small : state.toNat < 2 ^ 31) :
    Step32Fits content state ∧ (step32 content state).toNat ≤ state.toNat + 131070 := by
  rcases toNat_halves content with ⟨upper, lower⟩
  have fits : Step32Fits content state := by
    rw [Step32Fits]
    omega
  refine ⟨fits, ?_⟩
  rw [step32, BitVec.toNat_add, BitVec.toNat_add]
  omega

/-- The additions of `ip6`, with a bound for the sum before the content -/
theorem ip6Fits (small : buffer.length ≤ 65535) (addresses : List.Vector (BitVec 8) 32)
    (packetType_be : BitVec 32) :
    host.Ip6Fits addresses buffer packetType_be ∧
      (host.pseudoHeader addresses (BitVec.ofNat 16 buffer.length) packetType_be).toNat +
        host.sum buffer < 2 ^ 32 := by
  have addressSum := @sum_le host addresses.toList
  rw [List.Vector.toList_length] at addressSum
  have contentSum := @sum_le host buffer
  have none : (0 : BitVec 32).toNat = 0 := rfl
  have first := @toNat_step host addresses.toList 0 (by omega)
  have second := @step32Fits (host.step addresses.toList 0)
    (host.hostToBigEndian32 ((BitVec.ofNat 16 buffer.length).setWidth 32)) (by omega)
  have third := @step32Fits _ packetType_be (lt_of_le_of_lt second.2 (by omega))
  have fits : (host.pseudoHeader addresses (BitVec.ofNat 16 buffer.length) packetType_be).toNat +
      host.sum buffer < 2 ^ 32 := by
    rw [pseudoHeader]
    omega
  exact ⟨⟨stepFits (by omega), second.1, third.1, stepFits fits⟩, fits⟩

theorem law_ip6 (addresses : List.Vector (BitVec 8) 32) (packetType_be : BitVec 32) :
    host.Law fun packet => host.ip6 addresses packet packetType_be :=
  @law_of_sum host _
    (fun length => host.pseudoHeader addresses (BitVec.ofNat 16 length) packetType_be)
    (fun _ => rfl) fun _ small => (ip6Fits small addresses packetType_be).2

theorem law_engine : host.Law host.engine := by
  apply @law_of_sum host _ (fun _ => 0) (fun _ => rfl)
  intro buffer small
  have bound := @sum_le host buffer
  rw [show (0 : BitVec 32).toNat = 0 from rfl]
  omega

/-- The checksums obey the law on hosts of either byte order, and no sum is too great. -/
theorem checksum_law (host : Host) :
    host.Law host.engine ∧
    (∀ sourceAndDestAddrs, host.Law (host.udpIp6 sourceAndDestAddrs) ∧
      host.Law (host.icmp6 sourceAndDestAddrs)) ∧
    (∀ buffer : List (BitVec 8), buffer.length ≤ 65535 →
      host.StepFits buffer 0 ∧ ∀ sourceAndDestAddrs packetType_be,
        host.Ip6Fits sourceAndDestAddrs buffer packetType_be) ∧
    ∀ state, FoldFits state := by
  refine ⟨law_engine, ?_, ?_, ?_⟩
  · intro addresses
    exact ⟨law_ip6 addresses _, law_ip6 addresses _⟩
  · intro buffer small
    have bound := @sum_le host buffer
    have none : (0 : BitVec 32).toNat = 0 := rfl
    exact ⟨stepFits (by omega), fun addresses packetType_be =>
      (ip6Fits small addresses packetType_be).1⟩
  · intro state
    rcases toNat_halves state with ⟨upper, lower⟩
    rw [FoldFits]
    omega

/-! ## The checksums of messages in memory -/

theorem getD_read (memory : Memory) (address : ℤ) {length place : ℕ} (inside : place < length) :
    (memory.read address length).getD place 0 = memory (address + place) := by
  rw [Memory.read, List.getD_eq_getElem?_getD, List.getElem?_map, List.getElem?_range inside]
  rfl

theorem word_read (memory : Memory) (address : ℤ) {length index : ℕ}
    (inside : 2 * index + 2 ≤ length) :
    (Host.mk false).word (memory.read address length) index =
      memory.load (address + 2 * index) 16 := by
  rw [word, getD_read memory address (by omega), getD_read memory address (by omega)]
  apply BitVec.eq_of_getLsbD_eq
  intro bit small
  simp only [Bool.false_eq_true, if_false]
  rw [Memory.getLsbD_load _ _ small, BitVec.getLsbD_append]
  rcases lt_or_ge bit 8 with low | high
  · have place : address + 2 * index + (bit : ℕ) / 8 = address + (2 * index : ℕ) := by omega
    rw [if_pos low, place, Nat.mod_eq_of_lt low]
  · have place : address + 2 * index + (bit : ℕ) / 8 = address + (2 * index + 1 : ℕ) := by omega
    rw [if_neg (by omega), place, show bit % 8 = bit - 8 by omega]

theorem step_read (memory : Memory) (address : ℤ) (length : ℕ) (state : BitVec 32) :
    (Host.mk false).step (memory.read address length) state =
      Checksum.step memory address length state := by
  have loop (pairs : ℕ) (le : pairs ≤ length / 2) :
      (Host.mk false).stepLoop (memory.read address length) pairs state =
        Checksum.stepLoop memory address pairs state := by
    induction pairs with
    | zero => rfl
    | succ pairs ih =>
        rw [stepLoop, Checksum.stepLoop, ih (by omega), word_read memory address (by omega)]
  rw [step, Checksum.step, Memory.length_read, loop _ le_rfl]
  split_ifs with odd
  · have last : address + (length - 1 : ℕ) = address + length - 1 := by omega
    rw [oddByte, Memory.length_read, getD_read memory address (by omega), last]
    rfl
  · rfl

/-- The checksum of bytes in memory on a little endian host -/
theorem engine_read (memory : Memory) (buffer : ℤ) (length : BitVec 16) :
    (Host.mk false).engine (memory.read buffer length.toNat) =
      Checksum.engine memory buffer length := by
  rw [engine, step_read]
  rfl

theorem ip6_read (memory : Memory) (sourceAndDestAddrs packetHeaderAndContent : ℤ)
    (length : BitVec 16) (packetType_be : BitVec 32) :
    (Host.mk false).ip6 ⟨memory.read sourceAndDestAddrs 32, Memory.length_read ..⟩
        (memory.read packetHeaderAndContent length.toNat) packetType_be =
      Checksum.ip6 memory sourceAndDestAddrs packetHeaderAndContent length packetType_be := by
  have addresses : (Host.mk false).step (memory.read sourceAndDestAddrs 32) 0 =
      Checksum.step memory sourceAndDestAddrs 32 0 := step_read ..
  change complete ((Host.mk false).step _ (step32 _ (step32 _ ((Host.mk false).step _ 0)))) = _
  rw [step_read, Memory.length_read, BitVec.ofNat_toNat, BitVec.setWidth_eq,
    List.Vector.toList_mk, addresses]
  rfl

theorem read_store (memory : Memory) (address : ℤ) {length field : ℕ} (value : BitVec 16)
    (inside : 2 * field + 2 ≤ length) :
    (memory.store (address + 2 * field) value).read address length =
      (Host.mk false).setWord (memory.read address length) field value := by
  apply List.ext_getElem (by simp)
  intro place here there
  rw [Memory.length_read] at here
  rw [← List.getD_eq_getElem _ 0, ← List.getD_eq_getElem _ 0, getD_read _ _ here,
    getD_setWord (by rw [Memory.length_read]; exact inside), getD_read _ _ here, Memory.store]
  simp only [Bool.false_eq_true, if_false]
  by_cases lower : place = 2 * field
  · have first : address + (place : ℤ) - (address + 2 * field) = 0 := by omega
    rw [if_pos (by omega), if_pos lower, first]
    rfl
  · rw [if_neg lower]
    by_cases upper : place = 2 * field + 1
    · have second : address + (place : ℤ) - (address + 2 * field) = 1 := by omega
      rw [if_pos (by omega), if_pos upper, second]
      rfl
    · rw [if_neg (by omega), if_neg upper]

/-- A checksum that is stored in memory makes the checksum of the buffer zero. -/
theorem engine_store (memory : Memory) (buffer : ℤ) (length : BitVec 16) {field : ℕ}
    (inside : 2 * field + 2 ≤ length.toNat) :
    let zeroed := memory.store (buffer + 2 * field) (0 : BitVec 16)
    Checksum.engine (zeroed.store (buffer + 2 * field) (Checksum.engine zeroed buffer length))
      buffer length = 0 := by
  intro zeroed
  have law := (@law_engine (Host.mk false)).stored (memory.read buffer length.toNat) field
    (by rw [Memory.length_read]; exact Nat.le_of_lt_succ length.isLt)
    (by rw [Memory.length_read]; exact inside)
  rw [← read_store _ _ _ inside, engine_read, ← read_store _ _ _ inside, engine_read] at law
  rw [Memory.store_store]
  exact law

end Host

end Cjdns.Checksum
