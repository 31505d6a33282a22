import Cjdns.Dht.ReplyModule
import Cjdns.Memory.BufferSafety
import Cjdns.Tunnel.IpTunnel
import Cjdns.Wire.IP6Header

/-!
# Requests for addresses

What the tunnel answers when a node asks for its addresses. The answer repeats the transaction id
and is written to a buffer of 512 bytes, with no look at whether there was room. But the request
is read into a buffer of a kilobyte, and a transaction id for which there is no room in the
answer has none in there either.
-/

namespace Cjdns

namespace IpTunnel

open StandardBencSerializer

/-! ## The answer -/

/-- `addresses` -/
abbrev ADDRESSES : BString := [0x61, 0x64, 0x64, 0x72, 0x65, 0x73, 0x73, 0x65, 0x73]

/-- `ip4` -/
abbrev IP4 : BString := [0x69, 0x70, 0x34]

/-- `ip6` -/
abbrev IP6 : BString := [0x69, 0x70, 0x36]

/-- `q` -/
abbrev Q : BString := [0x71]

/-- `txid` -/
abbrev TXID : BString := [0x74, 0x78, 0x69, 0x64]

/-- `IpTunnel_getAddresses` -/
abbrev GET_ADDRESSES : BString :=
  [0x49, 0x70, 0x54, 0x75, 0x6E, 0x6E, 0x65, 0x6C, 0x5F, 0x67, 0x65, 0x74, 0x41, 0x64, 0x64, 0x72,
    0x65, 0x73, 0x73, 0x65, 0x73]

/-- The bytes of an address, in memory order -/
def addressBytes {width : ℕ} (count : ℕ) (address : BitVec width) : BString :=
  (List.range count).map fun index => address.extractLsb' (8 * index) 8

/-- The addresses of a connection -/
def addresses (conn : Connection) : Dict :=
  let entries : Dict := .nil
  let entries := if conn.connectionIp6 ≠ 0 then
    entries.putObject IP6 (.string (addressBytes 16 conn.connectionIp6)) else entries
  if conn.connectionIp4 ≠ 0 then
    entries.putObject IP4 (.string (addressBytes 4 conn.connectionIp4)) else entries

/-- The message that `requestForAddresses` makes, if it makes one -/
def addressOffer (request : Dict) (conn : Connection) : Option Dict :=
  if conn.isOutgoing ∨ conn.connectionIp6 = 0 ∧ conn.connectionIp4 = 0 then none
  else
    let msg := Dict.nil.putObject ADDRESSES (.dict (addresses conn))
    match request.getString TXID with
    | some txid => some (msg.putObject TXID (.string txid))
    | none => some msg

/-- What `sendControlMessage` sends -/
structure ControlMessage where
  header : IP6Header
  length_be : BitVec 16
  checksum_be : BitVec 16
  content : BString

/-- `sendControlMessage`, with the bytes on the stack that the message is written to -/
def sendControlMessage (stack : List.Vector (BitVec 8) 512) (dict : Dict) : ControlMessage :=
  let w := (writeDictionary dict (ArrayWriter.new stack.toList)).2
  let content := w.contents
  let length := BitVec.ofNat 16 w.bytesWritten
  let header : IP6Header :=
    { versionClassAndFlowLabel := 0x6000
      flowLabelLow := 0
      payloadLength := length + BitVec.ofNat 16 UDPHeader_SIZE
      nextHeader := 17
      hopLimit := 0
      sourceAddr := List.replicate 16 0
      destinationAddr := List.replicate 16 0 }
  { header := header
    length_be := Endian.hostToBigEndian16 length
    checksum_be := Checksum.udpIp6 header
      (List.replicate 4 0 ++ Bytes.ofWord16 length ++ List.replicate 2 0 ++ content)
    content := content }

/-! ## The memory that it takes -/

/-- What `parseString` allocates: the bytes with a null terminator, and the `String` -/
def stringSizes (string : BString) : List ℕ :=
  [string.length + 1, 16]

mutual

/-- What `parseGeneric` allocates -/
def objectSizes : Object → List ℕ
  | .string bytes => 16 :: stringSizes bytes
  | .integer _ => [16]
  | .list list => 16 :: 8 :: itemSizes list
  | .dict dictionary => 16 :: 8 :: entrySizes dictionary

/-- What `parseList` allocates -/
def itemSizes : BList → List ℕ
  | .nil => []
  | .cons elem next => objectSizes elem ++ 16 :: itemSizes next

/-- What `parseDictionary` allocates; the entry that was read last is the first one. -/
def entrySizes : Dict → List ℕ
  | .nil => []
  | .cons key val next => entrySizes next ++ (stringSizes key ++ (objectSizes val ++ [24]))

end

/-- What `Dict_putString` and the like allocate -/
abbrev putSizes : List ℕ := [16, 24]

/-- What `requestForAddresses` allocates for a message -/
def offerSizes (request : Dict) (conn : Connection) : List ℕ :=
  8 :: ((if conn.connectionIp6 ≠ 0 then 17 :: 16 :: putSizes else []) ++
    ((if conn.connectionIp4 ≠ 0 then 5 :: 16 :: putSizes else []) ++
      (8 :: putSizes ++ if (request.getString TXID).isSome then putSizes else [])))

/-- What `incomingControlMessage` allocates for its reader -/
abbrev readerSizes : List ℕ := [32, 24]

/-- One allocation behind the other -/
def allocateAll (sizes : List ℕ) (context : BufferAllocator.Context) :
    Except BufferAllocator.Failure BufferAllocator.Context :=
  sizes.foldlM (fun context size =>
    (BufferAllocator.allocatorMalloc (BitVec.ofNat 64 size) context).map Prod.snd) context

/-- The answer of `incomingControlMessage` to a request for addresses, with the message that it is
made of. Where the memory does not last, the program is aborted. -/
def answer (buffer : BitVec 64) (stack : List.Vector (BitVec 8) 512) (conn : Connection)
    (request : Dict) : Option (Dict × ControlMessage) := do
  let alloc ← (BufferAllocator.newWithIdentity buffer 1024).toOption.join
  let alloc ← (allocateAll readerSizes alloc).toOption
  let alloc ← (allocateAll (entrySizes request) alloc).toOption
  if (request.getDict ADDRESSES).isSome ∨ request.getString Q ≠ some GET_ADDRESSES then none
  let msg ← addressOffer request conn
  let _ ← (allocateAll (offerSizes request conn) alloc).toOption
  some (msg, sendControlMessage stack msg)

/-! ## How much memory is gone -/

/-- The next multiple of the alignment -/
def aligned (number : ℕ) : ℕ :=
  (number + 7) / 8 * 8

/-- Allocations take no less than so many bytes, if all goes well. -/
def Takes (sizes : List ℕ) (bytes : ℕ) : Prop :=
  ∀ context after : BufferAllocator.Context, allocateAll sizes context = .ok after →
    aligned context.pointer.toNat + bytes ≤ aligned after.pointer.toNat ∧
      after.endPointer = context.endPointer

theorem allocateAll_cons {size : ℕ} {sizes : List ℕ} {context after : BufferAllocator.Context} :
    allocateAll (size :: sizes) context = .ok after ↔ ∃ pointer middle,
      BufferAllocator.allocatorMalloc (BitVec.ofNat 64 size) context = .ok (pointer, middle) ∧
        allocateAll sizes middle = .ok after := by
  rw [allocateAll, List.foldlM_cons]
  rcases BufferAllocator.allocatorMalloc (BitVec.ofNat 64 size) context with
    failure | ⟨pointer, middle⟩
  · constructor
    · intro impossible
      cases impossible
    · rintro ⟨pointer, middle, impossible, -⟩
      cases impossible
  · constructor
    · intro fine
      exact ⟨pointer, middle, rfl, fine⟩
    · rintro ⟨other, between, same, fine⟩
      rw [Except.ok.injEq, Prod.mk.injEq] at same
      rw [← same.2] at fine
      exact fine

theorem allocateAll_append {first second : List ℕ} {context after : BufferAllocator.Context} :
    allocateAll (first ++ second) context = .ok after ↔ ∃ middle,
      allocateAll first context = .ok middle ∧ allocateAll second middle = .ok after := by
  rw [allocateAll, List.foldlM_append]
  change (allocateAll first context >>= allocateAll second) = _ ↔ _
  rcases allocateAll first context with failure | middle
  · constructor
    · intro impossible
      cases impossible
    · rintro ⟨middle, impossible, -⟩
      cases impossible
  · constructor
    · intro fine
      exact ⟨middle, rfl, fine⟩
    · rintro ⟨other, same, fine⟩
      rw [Except.ok.injEq] at same
      rw [← same] at fine
      exact fine

/-- An allocation that goes well does not go back. -/
theorem le_of_allocatorMalloc {length pointer : BitVec 64}
    {context after : BufferAllocator.Context}
    (fine : BufferAllocator.allocatorMalloc length context = .ok (pointer, after)) :
    context.pointer.toNat ≤ after.pointer.toNat ∧ after.endPointer = context.endPointer ∧
      after.pointer.toNat < context.endPointer.toNat := by
  rw [BufferAllocator.allocatorMalloc] at fine
  split_ifs at fine with full low
  rw [Except.ok.injEq, Prod.mk.injEq] at fine
  rcases fine with ⟨-, rfl⟩
  rw [BitVec.le_def, not_le] at full
  rw [BitVec.lt_def, not_lt] at low
  exact ⟨low, rfl, full⟩

theorem takes_of_small {size : ℕ} (small : size < 2 ^ 62) : Takes [size] (aligned size) := by
  intro context after fine
  rcases allocateAll_cons.mp fine with ⟨pointer, middle, allocates, rest⟩
  have ends : middle = after := Except.ok.inj rest
  subst ends
  have skips := BufferAllocator.skipped_lt context.pointer
  have word : (BitVec.ofNat 64 size).toNat = size := by
    rw [BitVec.toNat_ofNat, Nat.mod_eq_of_lt (by omega)]
  have allocated := BufferAllocator.allocated_of_ok allocates (by
    change _ < 8 at skips
    omega)
  have lower := allocated.lower
  have upper := allocated.upper
  have multiple : 8 ∣ pointer.toNat := allocated.aligned
  refine ⟨?_, by rw [allocated.same]⟩
  rw [aligned, aligned, aligned, upper, word]
  omega

theorem takes_none (sizes : List ℕ) : Takes sizes 0 := by
  induction sizes with
  | nil =>
      intro context after fine
      have ends : context = after := Except.ok.inj fine
      rw [ends]
      exact ⟨le_rfl, rfl⟩
  | cons size sizes ih =>
      intro context after fine
      rcases allocateAll_cons.mp fine with ⟨pointer, middle, allocates, rest⟩
      rcases le_of_allocatorMalloc allocates with ⟨onward, same, -⟩
      rcases ih _ _ rest with ⟨further, still⟩
      refine ⟨le_trans ?_ further, still.trans same⟩
      rw [aligned, aligned]
      omega

theorem Takes.append {first second : List ℕ} {one two : ℕ} (firstTakes : Takes first one)
    (secondTakes : Takes second two) : Takes (first ++ second) (one + two) := by
  intro context after fine
  rcases allocateAll_append.mp fine with ⟨middle, before, behind⟩
  rcases firstTakes _ _ before with ⟨onward, same⟩
  rcases secondTakes _ _ behind with ⟨further, still⟩
  exact ⟨by omega, still.trans same⟩

/-- More allocations take no less. -/
theorem Takes.more {first : List ℕ} {bytes : ℕ} (takes : Takes first bytes) (second : List ℕ) :
    Takes (first ++ second) bytes :=
  takes.append (takes_none second)

theorem Takes.cons {size : ℕ} {sizes : List ℕ} {bytes : ℕ} (takes : Takes sizes bytes)
    (small : size < 2 ^ 62) : Takes (size :: sizes) (aligned size + bytes) :=
  (takes_of_small small).append takes

/-! ## What a request takes -/

/-- What is taken for an entry with a string -/
def entryBytes (key string : BString) : ℕ :=
  aligned (key.length + 1) + 16 + (16 + (aligned (string.length + 1) + 16)) + 24

theorem takes_entry {key string : BString} (shortKey : key.length < 2 ^ 61)
    (short : string.length < 2 ^ 61) :
    Takes (stringSizes key ++ (objectSizes (.string string) ++ [24])) (entryBytes key string) := by
  have nil : Takes [] 0 := takes_none []
  have last := nil.cons (show 24 < 2 ^ 62 by norm_num)
  have value := ((last.cons (show 16 < 2 ^ 62 by norm_num)).cons
    (show string.length + 1 < 2 ^ 62 by omega)).cons (show 16 < 2 ^ 62 by norm_num)
  have both := (value.cons (show 16 < 2 ^ 62 by norm_num)).cons
    (show key.length + 1 < 2 ^ 62 by omega)
  intro context after fine
  have taken := both _ _ fine
  refine ⟨le_trans (Nat.add_le_add_left ?_ _) taken.1, taken.2⟩
  rw [entryBytes]
  change _ ≤ aligned (key.length + 1) + (16 + (16 + (aligned (string.length + 1) + (16 + (24 + 0)))))
  omega

theorem takes_of_lookup {key string : BString} (shortKey : key.length < 2 ^ 61)
    (short : string.length < 2 ^ 61) : ∀ {dictionary : Dict},
    dictionary.lookup key = some (.string string) →
      Takes (entrySizes dictionary) (entryBytes key string)
  | .cons other val next, found => by
      rw [Dict.lookup] at found
      rw [entrySizes]
      split_ifs at found with same
      · rw [← same, Option.some.inj found, ← Nat.zero_add (entryBytes key string)]
        exact (takes_none _).append (takes_entry shortKey short)
      · exact (takes_of_lookup shortKey short found).more _

/-- Different keys have entries of their own. -/
theorem takes_of_lookups {first second one two : BString} (different : first ≠ second)
    (shortFirst : first.length < 2 ^ 61) (shortSecond : second.length < 2 ^ 61)
    (shortOne : one.length < 2 ^ 61) (shortTwo : two.length < 2 ^ 61) : ∀ {dictionary : Dict},
    dictionary.lookup first = some (.string one) → dictionary.lookup second = some (.string two) →
      Takes (entrySizes dictionary) (entryBytes first one + entryBytes second two)
  | .cons other val next, firstFound, secondFound => by
      rw [Dict.lookup] at firstFound secondFound
      rw [entrySizes]
      by_cases isFirst : first = other
      · rw [if_pos isFirst, Option.some.injEq] at firstFound
        rw [if_neg (by rw [← isFirst]; exact different.symm)] at secondFound
        rw [← isFirst, firstFound, Nat.add_comm]
        exact (takes_of_lookup shortSecond shortTwo secondFound).append
          (takes_entry shortFirst shortOne)
      · rw [if_neg isFirst] at firstFound
        by_cases isSecond : second = other
        · rw [if_pos isSecond, Option.some.injEq] at secondFound
          rw [← isSecond, secondFound]
          exact (takes_of_lookup shortFirst shortOne firstFound).append
            (takes_entry shortSecond shortTwo)
        · rw [if_neg isSecond] at secondFound
          exact (takes_of_lookups different shortFirst shortSecond shortOne shortTwo firstFound
            secondFound).more _

/-! ## Whole answers -/

theorem lookup_of_getString {key string : BString} {dictionary : Dict}
    (found : dictionary.getString key = some string) :
    dictionary.lookup key = some (.string string) := by
  rw [Dict.getString] at found
  rcases looked : dictionary.lookup key with _ | (bytes | number | list | entries)
  all_goals
    rw [looked] at found
    cases found
  rfl

/-- What is allocated for an offer in front of the last entry -/
def offerBytes (conn : Connection) : ℕ :=
  8 + ((if conn.connectionIp6 ≠ 0 then 24 + 16 + 16 + 24 else 0) +
    ((if conn.connectionIp4 ≠ 0 then 8 + 16 + 16 + 24 else 0) + (8 + 16 + 24 + 16)))

/-- The bytes of an offer, apart from the transaction id -/
def offerLength (conn : Connection) : ℕ :=
  1 + 11 + (1 + (if conn.connectionIp6 ≠ 0 then 24 else 0) +
    (if conn.connectionIp4 ≠ 0 then 11 else 0) + 1) + 6 + 1

theorem length_addressBytes {width : ℕ} (count : ℕ) (address : BitVec width) :
    (addressBytes count address).length = count := by
  rw [addressBytes, List.length_map, List.length_range]

/-- A string whose size is known -/
theorem length_serializeString {string : BString} {size digits : ℕ} (length : string.length = size)
    (text : (Decimal.ofInt (BitVec.ofNat 64 size).toInt).length = digits) :
    (serializeString string).length = digits + 1 + size := by
  rw [serializeString, List.length_append, List.length_cons, length, text]
  omega

theorem length_addresses (conn : Connection) : (serializeEntries (addresses conn)).length =
    (if conn.connectionIp6 ≠ 0 then 24 else 0) + (if conn.connectionIp4 ≠ 0 then 11 else 0) + 1 := by
  have six : (serializeString (addressBytes 16 conn.connectionIp6)).length = 2 + 1 + 16 :=
    length_serializeString (length_addressBytes _ _) (by decide +kernel)
  have four : (serializeString (addressBytes 4 conn.connectionIp4)).length = 1 + 1 + 4 :=
    length_serializeString (length_addressBytes _ _) (by decide +kernel)
  have sixKey : (serializeString IP6).length = 5 := by decide +kernel
  have fourKey : (serializeString IP4).length = 5 := by decide +kernel
  have below : BString.compare IP4 IP6 < 0 := by decide
  rw [addresses]
  split_ifs
  · simp only [Dict.putObject, if_pos below, serializeEntries, serializeGeneric, List.length_append,
      List.length_singleton, six, four, sixKey, fourKey]
  · simp only [Dict.putObject, serializeEntries, serializeGeneric, List.length_append,
      List.length_singleton, four, fourKey]
  · simp only [Dict.putObject, serializeEntries, serializeGeneric, List.length_append,
      List.length_singleton, six, sixKey]
  · rfl

theorem ok_of_toOption {α β : Type} {outcome : Except α β} {result : β}
    (some : outcome.toOption = some result) : outcome = .ok result := by
  rcases outcome with failure | value
  · cases some
  · rw [Option.some.inj some]

/-- What is left for a transaction id in an offer -/
theorem offer_cases {request msg : Dict} {conn : Connection}
    (offered : addressOffer request conn = some msg) :
    (conn.connectionIp6 ≠ 0 ∨ conn.connectionIp4 ≠ 0) ∧
      ((serializeDictionary msg).length ≤ 512 ∨ ∃ txid, request.getString TXID = some txid ∧
        (serializeDictionary msg).length = offerLength conn + (serializeString txid).length) := by
  rw [addressOffer] at offered
  split_ifs at offered with without
  refine ⟨?_, ?_⟩
  · by_contra neither
    rw [not_or, not_not, not_not] at neither
    exact without (.inr neither)
  have key : (serializeString ADDRESSES).length = 11 := by decide +kernel
  have txidKey : (serializeString TXID).length = 6 := by decide +kernel
  have inner := length_addresses conn
  rcases found : request.getString TXID with _ | txid
  · rw [found] at offered
    cases offered
    left
    simp only [Dict.putObject, serializeDictionary, serializeEntries, serializeGeneric,
      List.length_append, List.length_cons, List.length_nil, key, inner]
    split_ifs <;> omega
  · rw [found] at offered
    cases offered
    refine .inr ⟨txid, rfl, ?_⟩
    have above : ¬ BString.compare TXID ADDRESSES < 0 := by decide
    have other : ¬ BString.compare TXID ADDRESSES = 0 := by decide
    simp only [Dict.putObject, if_neg above, if_neg other, serializeDictionary, serializeEntries,
      serializeGeneric, List.length_append, List.length_cons, List.length_nil, key, txidKey, inner,
      offerLength]
    omega

theorem takes_offer {request : Dict} {conn : Connection} {txid : BString}
    (found : request.getString TXID = some txid) :
    ∃ front, offerSizes request conn = front ++ [24] ∧ Takes front (offerBytes conn) := by
  have rest : Takes [8, 16, 24, 16] (8 + 16 + 24 + 16) :=
    (((takes_of_small (show 16 < 2 ^ 62 by norm_num)).cons (show 24 < 2 ^ 62 by norm_num)).cons
      (show 16 < 2 ^ 62 by norm_num)).cons (show 8 < 2 ^ 62 by norm_num)
  have six : Takes (if conn.connectionIp6 ≠ 0 then 17 :: 16 :: putSizes else [])
      (if conn.connectionIp6 ≠ 0 then 24 + 16 + 16 + 24 else 0) := by
    split_ifs
    · exact (((takes_of_small (show 24 < 2 ^ 62 by norm_num)).cons
        (show 16 < 2 ^ 62 by norm_num)).cons (show 16 < 2 ^ 62 by norm_num)).cons
          (show 17 < 2 ^ 62 by norm_num)
    · exact takes_none _
  have four : Takes (if conn.connectionIp4 ≠ 0 then 5 :: 16 :: putSizes else [])
      (if conn.connectionIp4 ≠ 0 then 8 + 16 + 16 + 24 else 0) := by
    split_ifs
    · exact (((takes_of_small (show 24 < 2 ^ 62 by norm_num)).cons
        (show 16 < 2 ^ 62 by norm_num)).cons (show 16 < 2 ^ 62 by norm_num)).cons
          (show 5 < 2 ^ 62 by norm_num)
    · exact takes_none _
  refine ⟨_, ?_, (six.append (four.append rest)).cons (show 8 < 2 ^ 62 by norm_num)⟩
  rw [offerSizes, found, Option.isSome_some, if_pos rfl]
  simp

/-- The room that is left once there is memory for an offer -/
theorem takes_in_kilobyte {buffer : BitVec 64} (inside : buffer.toNat + 1024 < 2 ^ 64)
    {first second third last : BufferAllocator.Context} {sizes front : List ℕ} {one two : ℕ}
    (created : BufferAllocator.newWithIdentity buffer 1024 = .ok (some first))
    (readers : allocateAll readerSizes first = .ok second)
    (request : allocateAll sizes second = .ok third) (takesOne : Takes sizes one)
    (offer : allocateAll (front ++ [24]) third = .ok last) (takesTwo : Takes front two) :
    144 + 56 + one + two + 24 < 1024 := by
  have skips := BufferAllocator.skipped_lt buffer
  have invariant := @BufferAllocator.invariant_of_initial buffer 1024 inside (by
    change _ < 8 at skips
    change _ + 72 < _
    omega) ⟨first, fun _ => 0, ⟨[], []⟩⟩ ⟨created, rfl⟩
  have start := invariant.start
  have base := invariant.base
  have above := invariant.above
  have stop : first.endPointer.toNat = buffer.toNat + 1024 := invariant.stop
  change _ + 144 ≤ first.basePointer.toNat at base
  change first.basePointer.toNat ≤ first.pointer.toNat at above
  rcases (takes_of_small (show 24 < 2 ^ 62 by norm_num)).cons (show 32 < 2 ^ 62 by norm_num) _ _
    readers with ⟨atFirst, firstEnd⟩
  rcases takesOne _ _ request with ⟨atSecond, secondEnd⟩
  rcases allocateAll_append.mp offer with ⟨middle, before, behind⟩
  rcases takesTwo _ _ before with ⟨atThird, thirdEnd⟩
  rcases allocateAll_cons.mp behind with ⟨pointer, after, allocates, -⟩
  have skipsMiddle := BufferAllocator.skipped_lt middle.pointer
  have allocated := BufferAllocator.allocated_of_ok allocates (by
    change _ < 8 at skipsMiddle
    change _ + 24 < _
    omega)
  have lower := allocated.lower
  have upper := allocated.upper
  have below := allocated.below
  have multiple : 8 ∣ pointer.toNat := allocated.aligned
  change after.pointer.toNat = pointer.toNat + 24 at upper
  rw [thirdEnd, secondEnd, firstEnd, stop] at below
  have reader : aligned 32 + aligned 24 = 56 := rfl
  rw [reader] at atFirst
  rw [aligned, aligned] at atFirst atSecond atThird
  omega

/-- An answer that is sent has all of the message in it. -/
theorem answer_whole {buffer : BitVec 64} (inside : buffer.toNat + 1024 < 2 ^ 64)
    {stack : List.Vector (BitVec 8) 512} {conn : Connection} {request : Dict} {erange : Bool}
    {bytes : BString} {behind : BitVec 8} {reader : Reader} (small : bytes.length < 2 ^ 31)
    (parsed : parseDictionary erange (newReader bytes behind) = .ok (request, reader))
    {msg : Dict} {message : ControlMessage}
    (sent : answer buffer stack conn request = some (msg, message)) :
    message.content = serializeDictionary msg := by
  rw [answer] at sent
  simp only [Option.bind_eq_bind, Option.bind_eq_some_iff] at sent
  rcases sent with ⟨alloc, created, second, readers, third, entries, rest⟩
  split_ifs at rest with refused
  · cases rest
  rcases Option.bind_eq_some_iff.mp rest with ⟨offer, offered, rest⟩
  rcases Option.bind_eq_some_iff.mp rest with ⟨last, offers, sends⟩
  rw [Option.some.injEq, Prod.mk.injEq] at sends
  rcases sends with ⟨rfl, rfl⟩
  have new : BufferAllocator.newWithIdentity buffer 1024 = .ok (some alloc) := by
    rcases outcome : BufferAllocator.newWithIdentity buffer 1024 with failure | result
    · rw [outcome] at created
      cases created
    · rw [outcome] at created
      exact congrArg Except.ok created
  have asks : request.getString Q = some GET_ADDRESSES := by
    by_contra other
    exact refused (.inr other)
  refine contents_eq_iff.mpr ?_
  rw [List.Vector.toList_length]
  rcases offer_cases offered with ⟨some, fits | ⟨txid, found, length⟩⟩
  · exact fits
  have short : txid.length < 2 ^ 61 := by
    have bound : (newReader bytes behind).length < 2 ^ 32 := by
      rw [newReader, List.length_append, List.length_singleton]
      omega
    exact lt_of_le_of_lt (length_le_of_getString (by omega) parsed found) (by omega)
  have requestTakes := @takes_of_lookups Q TXID GET_ADDRESSES txid (by decide) (by decide)
    (by decide) (by decide) short _ (lookup_of_getString asks) (lookup_of_getString found)
  rcases @takes_offer request conn txid found with ⟨front, sizes, offerTakes⟩
  rw [sizes] at offers
  have room := takes_in_kilobyte inside new (ok_of_toOption readers) (ok_of_toOption entries)
    requestTakes (ok_of_toOption offers) offerTakes
  have asked : entryBytes Q GET_ADDRESSES = 104 := rfl
  have repeated : entryBytes TXID txid = 80 + aligned (txid.length + 1) := by
    rw [entryBytes]
    change 8 + 16 + (16 + (_ + 16)) + 24 = _
    omega
  rw [asked, repeated, aligned, offerBytes] at room
  have digits : (Decimal.ofInt (BitVec.ofNat 64 txid.length).toInt).length ≤ 3 := by
    have same : (BitVec.ofNat 64 txid.length).toInt = txid.length := by
      rw [BitVec.toInt_ofNat', Int.bmod_eq_of_le (by omega) (by omega)]
    rw [same, Decimal.ofInt_natCast]
    refine Decimal.length_ofNat_le (by norm_num) ?_
    split_ifs at room <;> omega
  rw [length, offerLength, serializeString, List.length_append, List.length_cons]
  rcases some with six | four
  · rw [if_pos six] at room ⊢
    split_ifs at room ⊢ <;> omega
  · rw [if_pos four] at room ⊢
    split_ifs at room ⊢ <;> omega

end IpTunnel

/-! ## Replies that are whole -/

open StandardBencSerializer

/-- A reply to a query of the DHT can be read back, and a tunnel's answer has all of its message
in it. -/
def RepliesWhole (reply : Option DHTMessage)
    (answer : Option (Dict × IpTunnel.ControlMessage)) : Prop :=
  DHTMessage.Whole reply ∧ ∀ msg message, answer = some (msg, message) →
    message.content = serializeDictionary msg

/-- Replies are whole exactly if the reply to the query fits, or if there is no memory for it. -/
theorem repliesWhole_iff [AddressCalc] {erange : Bool} {behind : BitVec 8}
    -- the query
    {exhausted : Bool} {fuel : ℕ} {responder : Responder} {asking : Address} {query : Dict}
    {bytes : BString} {reader : Reader} (small : bytes.length ≤ DHTMessage.MAX_SIZE)
    (parsed : parseDictionary erange (newReader bytes behind) = .ok (query, reader))
    -- the request
    {buffer : BitVec 64} (inside : buffer.toNat + 1024 < 2 ^ 64)
    {stack : List.Vector (BitVec 8) 512} {conn : IpTunnel.Connection} {request : Dict}
    {content : BString} {rest : Reader} (short : content.length < 2 ^ 31)
    (read : parseDictionary erange (newReader content behind) = .ok (request, rest)) :
    RepliesWhole (ReplyModule.handleIncoming exhausted fuel responder asking query)
        (IpTunnel.answer buffer stack conn request) ↔
      exhausted = true ∨ ∀ dictionary,
        ReplyModule.replyDict fuel responder asking query = some dictionary →
          (serializeDictionary dictionary).length ≤ DHTMessage.MAX_SIZE := by
  rw [← whole_reply_iff small parsed, RepliesWhole]
  refine and_iff_left fun msg message sent => ?_
  exact IpTunnel.answer_whole inside short read sent

namespace RepliesWhole

theorem parse_serialized {erange : Bool} {behind : BitVec 8} {tree : Dict}
    (small : (serializeDictionary tree).length < 2 ^ 63) (plain : tree.hasExtreme = false) :
    parseDictionary erange (newReader (serializeDictionary tree) behind) =
      .ok (tree.mirrorOnto .nil, [behind]) := by
  refine (parseDictionary_eq_ok ?_).mpr
    ⟨_, tree, (isDictionary_serialize small).lenient, rfl, fun _ => plain, rfl⟩
  rw [newReader, List.length_append, List.length_singleton]
  omega

/-- A router that knows nobody -/
def lonely [AddressCalc] : Responder where
  nodeStore := { thisNodeAddress := ⟨1, 1, 1⟩, capacity := 0, entries := [], labelSum := 0 }
  gitVersion := List.Vector.replicate 20 0
  stackAddr := ⟨0, 0, 0⟩

/-- A node that asks -/
def asking : Address := ⟨0xFC000000000000000000000000000002, 2, 0x15⟩

/-- A ping with a transaction id -/
def ping (txid : BString) : Dict :=
  .cons CJDHTConstants.QUERY (.string [0x70, 0x6E])
    (.cons CJDHTConstants.TXID (.string txid) .nil)

/-- A connection with an IPv4 address to give away -/
def client : IpTunnel.Connection := ⟨2, 2, 0, 0x0100000A, false, 0⟩

theorem repliesWhole_of_short_txid :
    letI : AddressCalc := AddressCalc.plain
    RepliesWhole
      (ReplyModule.handleIncoming false 0 lonely asking ((ping [1, 2, 3, 4]).mirrorOnto .nil))
      (IpTunnel.answer 4096 (List.Vector.replicate 512 0) client
        (Dict.mirrorOnto (.cons IpTunnel.Q (.string IpTunnel.GET_ADDRESSES) .nil) .nil)) := by
  let : AddressCalc := AddressCalc.plain
  refine (repliesWhole_iff (show (serializeDictionary (ping [1, 2, 3, 4])).length ≤ 1536 by
    decide +kernel) (@parse_serialized false 0 _ (by decide +kernel) (by decide +kernel))
    (by decide) (show (serializeDictionary (.cons IpTunnel.Q
      (.string IpTunnel.GET_ADDRESSES) .nil)).length < 2 ^ 31 by decide +kernel)
    (parse_serialized (by decide +kernel) (by decide +kernel))).mpr (.inr ?_)
  intro dictionary reply
  have made : ReplyModule.replyDict 0 lonely asking ((ping [1, 2, 3, 4]).mirrorOnto .nil) =
      some (.cons CJDHTConstants.PROTOCOL (.integer 2)
        (.cons CJDHTConstants.TXID (.string [1, 2, 3, 4])
          (.cons CJDHTConstants.VERSION (.string (List.replicate 20 0)) .nil))) := rfl
  rw [made, Option.some.injEq] at reply
  rw [← reply]
  decide +kernel

/-- The longest transaction ids that a query can carry do not fit in the reply to it. -/
theorem long_txid_truncated :
    letI : AddressCalc := AddressCalc.plain
    (serializeDictionary (ping (List.replicate 1500 0x61))).length ≤ DHTMessage.MAX_SIZE ∧
      parseDictionary false (newReader (serializeDictionary (ping (List.replicate 1500 0x61))) 0) =
        .ok ((ping (List.replicate 1500 0x61)).mirrorOnto .nil, [0]) ∧
      ∀ answer, ¬ RepliesWhole (ReplyModule.handleIncoming false 0 lonely asking
        ((ping (List.replicate 1500 0x61)).mirrorOnto .nil)) answer := by
  let : AddressCalc := AddressCalc.plain
  have fits : (serializeDictionary (ping (List.replicate 1500 0x61))).length ≤ 1536 := by
    decide +kernel
  have parsed := @parse_serialized false 0 (ping (List.replicate 1500 0x61))
    (lt_of_le_of_lt fits (by norm_num)) (by decide +kernel)
  refine ⟨fits, parsed, fun answer whole => ?_⟩
  have made : ReplyModule.replyDict 0 lonely asking
      ((ping (List.replicate 1500 0x61)).mirrorOnto .nil) =
      some (.cons CJDHTConstants.PROTOCOL (.integer 2)
        (.cons CJDHTConstants.TXID (.string (List.replicate 1500 0x61))
          (.cons CJDHTConstants.VERSION (.string (List.replicate 20 0)) .nil))) := rfl
  have impossible := ((whole_reply_iff fits parsed).mp whole.1).resolve_left
    Bool.false_ne_true _ made
  revert impossible
  decide +kernel

end RepliesWhole

end Cjdns
