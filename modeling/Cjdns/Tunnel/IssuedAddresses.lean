import Cjdns.Tunnel.ConnectionList
import Cjdns.Tunnel.ControlMessage

/-!
# Offers of addresses

An offer is for the connection whose number is its transaction id. The sender is looked at twice:
the first connection with its key has to be an outgoing one, and the one with the number has to
have the same key. But the direction of that one is not looked at.
-/

namespace Cjdns.IpTunnel

open StandardBencSerializer

/-- A word of memory with the bytes of a string in it -/
def wordOf (width : ℕ) (string : BString) : BitVec width :=
  Memory.load (fun place => string.getD place.toNat 0) 0 width

/-- The loop of `incomingAddresses`, over the connections from the `i`th on -/
def retargetLoop (number : ℤ) (context : Context) : ℕ → ℕ → ℕ → Option ℕ
  | 0, _, conn => some conn
  | rounds + 1, i, conn =>
      if (context.connections i).numberField.toInt = number then
        if (context.connections conn).nodeKey ≠ (context.connections i).nodeKey then none
        else retargetLoop number context rounds (i + 1) i
      else retargetLoop number context rounds (i + 1) conn

/-- The connection that an offer is for -/
def target (d : Dict) (conn : ℕ) (context : Context) : Option ℕ :=
  if (context.connections conn).isOutgoing = false then none
  else
    match d.getString TXID with
    | none => none
    | some txid =>
        if txid.length ≠ 4 then none
        else
          let number := (Bytes.load32 txid).toInt
          if number < 0 ∨ number ≥ context.nextConnectionNumber then none
          else if number ≠ (context.connections conn).numberField.toInt then
            retargetLoop number context context.count 0 conn
          else some conn

/-- The connection with the addresses of an offer -/
def withAddresses (addresses : Dict) (connection : Connection) : Connection :=
  let connection :=
    match addresses.getString IP4 with
    | some ip4 =>
        if ip4.length = 4 then { connection with connectionIp4 := wordOf 32 ip4 } else connection
    | none => connection
  match addresses.getString IP6 with
  | some ip6 =>
      if ip6.length = 16 then { connection with connectionIp6 := wordOf 128 ip6 } else connection
  | none => connection

/-- `incomingAddresses`, as far as the connections are concerned -/
def incomingAddresses (d addresses : Dict) (conn : ℕ) (context : Context) : Context :=
  match target d conn context with
  | none => context
  | some conn =>
      { context with
        connections := Function.update context.connections conn
          (withAddresses addresses (context.connections conn)) }

/-- `incomingControlMessage` with what was parsed; a request changes nothing. -/
def incomingDictionary (d : Dict) (conn : ℕ) (context : Context) : Context :=
  match d.getDict ADDRESSES with
  | some addresses => incomingAddresses d addresses conn context
  | none => context

/-- A control message from a node -/
structure Incoming where
  nodeKey : BitVec 256
  content : Dict

/-- `incomingFromNode` of a control message -/
def receive (context : Context) (message : Incoming) : Context :=
  match connectionByPubKey message.nodeKey context with
  | none => context
  | some conn => incomingDictionary message.content conn context

/-! ## Messages in memory -/

/-- `isControlMessageInvalid`: the content of a valid message, which is none if it is not one. There
is no result if an assertion of `Message_shift` fails. -/
def controlContent (message : Message) : Option (Option Message) :=
  let memory := message.memory
  let header := message.bytes
  let length := Endian.bigEndianToHost16 (memory.load (header + 4) 16)
  if memory (header + 6) ≠ 17 ∨ message.length < length.toNat + IP6Header_SIZE then some none
  else
    (message.shift (-IP6Header_SIZE)).bind fun message =>
      let udp := message.bytes
      if Checksum.ip6 memory (header + 8) udp length (Endian.hostToBigEndian32 17) ≠ 0 then
        some none
      else
        let length := length - BitVec.ofNat 16 UDPHeader_SIZE
        if Endian.bigEndianToHost16 (memory.load (udp + 4) 16) ≠ length ∨
            memory.load udp 32 ≠ 0 then some none
        else (message.shift (-UDPHeader_SIZE)).map fun message =>
          some { message with length := length.toNat }

/-- `incomingControlMessage`, where `errno` may be `ERANGE` beforehand -/
def incomingControlMessage (erange : Bool) (message : Message) (conn : ℕ) (context : Context) :
    Option Context :=
  (controlContent message).map fun content =>
    match content with
    | none => context
    | some message =>
        let reader := message.memory.read message.bytes (message.length + 1)
        match parseDictionary erange reader with
        | .error _ => context
        | .ok (d, _) => incomingDictionary d conn context

/-- What `incomingFromNode` makes of the connections -/
def connectionsFromNode (erange : Bool) (message : Message) (context : Context) :
    Option Context :=
  if message.length < PacketInfoHeader_SIZE then none
  else
    match connectionByPubKey (senderKey message) context with
    | none => some context
    | some conn =>
        (message.shift (-PacketInfoHeader_SIZE)).bind fun message =>
          if message.length > 40 ∧ getIpVersion message.memory message.bytes = 6 ∧
              message.memory.load (message.bytes + 8) 256 = 0 then
            incomingControlMessage erange message conn context
          else some context

/-- Messages change the connections as control messages do, or not at all. -/
theorem connectionsFromNode_cases {erange : Bool} {message : Message} {context after : Context}
    (goes : connectionsFromNode erange message context = some after) :
    after = context ∨ ∃ content, after = receive context ⟨senderKey message, content⟩ := by
  unfold connectionsFromNode at goes
  split_ifs at goes with short
  cases known : connectionByPubKey (senderKey message) context with
  | none =>
      rw [known] at goes
      cases goes
      exact .inl rfl
  | some conn =>
      rw [known] at goes
      rcases Option.bind_eq_some_iff.mp goes with ⟨packet, -, goes⟩
      split_ifs at goes with control
      · rcases Option.map_eq_some_iff.mp goes with ⟨content, -, rfl⟩
        rcases content with _ | aligned
        · exact .inl rfl
        · dsimp only
          rcases parsed : parseDictionary erange (aligned.memory.read aligned.bytes
            (aligned.length + 1)) with failure | ⟨d, reader⟩
          · exact .inl rfl
          · refine .inr ⟨d, ?_⟩
            rw [receive, known]
      · cases goes
        exact .inl rfl

/-! ## What a message can change -/

/-- The list that calls have made: numbers are below the next one and not given twice. -/
structure Context.Numbered (context : Context) : Prop where
  fits : context.nextConnectionNumber ≤ 2 ^ 31
  number_lt : ∀ i, i < context.count →
    (context.connections i).number < context.nextConnectionNumber
  number_inj : ∀ i j, i < context.count → j < context.count →
    (context.connections i).number = (context.connections j).number → i = j

/-- The field has a number of its own for each connection. -/
theorem Context.Numbered.field_inj {context : Context} (numbered : context.Numbered) {i j : ℕ}
    (first : i < context.count) (second : j < context.count)
    (same : (context.connections i).numberField.toInt = (context.connections j).numberField.toInt) :
    i = j := by
  apply numbered.number_inj i j first second
  have bound := numbered.fits
  have one := numbered.number_lt i first
  have two := numbered.number_lt j second
  have fields := congrArg BitVec.toNat (BitVec.toInt_inj.mp same)
  rwa [Connection.numberField, Connection.numberField, BitVec.toNat_ofNat, BitVec.toNat_ofNat,
    Nat.mod_eq_of_lt (by omega), Nat.mod_eq_of_lt (by omega)] at fields

theorem Context.Numbered.toInt_lt {context : Context} (numbered : context.Numbered) {i : ℕ}
    (inside : i < context.count) :
    (context.connections i).numberField.toInt < context.nextConnectionNumber := by
  have bound := numbered.number_lt i inside
  rw [Connection.numberField, BitVec.toInt_ofNat']
  have most := @Int.bmod_le (context.connections i).number (2 ^ 31) (by decide)
  by_cases small : (context.connections i).number < 2 ^ 30
  · rw [Int.bmod_eq_of_le (by omega) (by omega)]
    omega
  · omega

/-- What is not an address -/
def Connection.fixed (connection : Connection) : BitVec 256 × Bool × ℕ :=
  (connection.nodeKey, connection.isOutgoing, connection.number)

def Connection.issued (connection : Connection) : BitVec 32 × BitVec 128 :=
  (connection.connectionIp4, connection.connectionIp6)

/-- The same connections, with whatever addresses -/
structure SameConnections (context after : Context) : Prop where
  count_eq : after.count = context.count
  fixed_eq : ∀ i, (after.connections i).fixed = (context.connections i).fixed

theorem fixed_withAddresses (addresses : Dict) (connection : Connection) :
    (withAddresses addresses connection).fixed = connection.fixed := by
  unfold withAddresses
  cases addresses.getString IP4 <;> cases addresses.getString IP6 <;> dsimp only <;>
    split_ifs <;> rfl

/-- The loop comes to a connection of the list with the same key, and with the number unless it
stays where it is. -/
theorem retargetLoop_eq_some {number : ℤ} {context : Context} {rounds i conn found : ℕ}
    (inside : conn < context.count) (bound : i + rounds ≤ context.count)
    (comes : retargetLoop number context rounds i conn = some found) :
    found < context.count ∧
      (context.connections found).nodeKey = (context.connections conn).nodeKey ∧
      (found = conn ∨ (context.connections found).numberField.toInt = number) := by
  induction rounds generalizing i conn with
  | zero =>
      cases comes
      exact ⟨inside, rfl, .inl rfl⟩
  | succ rounds ih =>
      rw [retargetLoop] at comes
      split_ifs at comes with here other
      · rcases ih (by omega) (by omega) comes with ⟨known, same, found⟩
        refine ⟨known, same.trans (not_not.mp other).symm, .inr ?_⟩
        rcases found with rfl | found
        · exact here
        · exact found
      · exact ih inside (by omega) comes

/-- An offer is taken from a node whose first connection is outgoing, for one with its key. -/
theorem target_eq_some {d : Dict} {conn found : ℕ} {context : Context}
    (inside : conn < context.count) (comes : target d conn context = some found) :
    (context.connections conn).isOutgoing = true ∧ found < context.count ∧
      (context.connections found).nodeKey = (context.connections conn).nodeKey ∧
      (found = conn ∨ 0 ≤ (context.connections found).numberField.toInt) := by
  unfold target at comes
  split_ifs at comes with incoming
  refine ⟨Bool.eq_true_of_not_eq_false incoming, ?_⟩
  cases text : d.getString TXID with
  | none =>
      rw [text] at comes
      cases comes
  | some txid =>
      rw [text] at comes
      dsimp only at comes
      split_ifs at comes with long range other
      · rcases retargetLoop_eq_some inside (by omega) comes with ⟨bound, same, found⟩
        exact ⟨bound, same, found.imp_right fun number => by omega⟩
      · cases comes
        exact ⟨inside, rfl, .inl rfl⟩

/-- A message that changes something is an offer, for a connection with the key of its sender and,
if it is not the first one, with a number that is not negative. -/
theorem receive_cases (context : Context) (message : Incoming) :
    receive context message = context ∨
      ∃ first conn addresses, connectionByPubKey message.nodeKey context = some first ∧
        (context.connections first).isOutgoing = true ∧ conn < context.count ∧
        (context.connections conn).nodeKey = message.nodeKey ∧
        (conn = first ∨ 0 ≤ (context.connections conn).numberField.toInt) ∧
        message.content.getDict ADDRESSES = some addresses ∧
        receive context message = { context with
          connections := Function.update context.connections conn
            (withAddresses addresses (context.connections conn)) } := by
  unfold receive
  cases known : connectionByPubKey message.nodeKey context with
  | none => exact .inl rfl
  | some first =>
      dsimp only
      unfold incomingDictionary
      cases offer : message.content.getDict ADDRESSES with
      | none => exact .inl rfl
      | some addresses =>
          dsimp only
          unfold incomingAddresses
          cases comes : target message.content first context with
          | none => exact .inl rfl
          | some conn =>
              rcases connectionByPubKey_eq_some known with ⟨inside, key⟩
              rcases target_eq_some inside comes with ⟨outgoing, bound, same, named⟩
              exact .inr ⟨first, conn, addresses, rfl, outgoing, bound, same.trans key, named, rfl,
                rfl⟩

theorem sameConnections_receive (context : Context) (message : Incoming) :
    SameConnections context (receive context message) := by
  rcases receive_cases context message with
    same | ⟨first, conn, addresses, -, -, -, -, -, -, after⟩
  · rw [same]
    exact ⟨rfl, fun _ => rfl⟩
  · rw [after]
    refine ⟨rfl, fun i => ?_⟩
    by_cases here : i = conn
    · rw [here]
      exact (congrArg Connection.fixed (Function.update_self _ _ _)).trans
        (fixed_withAddresses _ _)
    · exact congrArg Connection.fixed (Function.update_of_ne here _ _)

theorem SameConnections.trans {one two three : Context} (first : SameConnections one two)
    (second : SameConnections two three) : SameConnections one three :=
  ⟨second.count_eq.trans first.count_eq, fun i => (second.fixed_eq i).trans (first.fixed_eq i)⟩

theorem SameConnections.connectionByPubKey_eq {context after : Context}
    (same : SameConnections context after) (key : BitVec 256) :
    connectionByPubKey key after = connectionByPubKey key context := by
  unfold connectionByPubKey
  rw [same.count_eq]
  congr 1
  funext i
  rw [show (after.connections i).nodeKey = (context.connections i).nodeKey from
    congrArg Prod.fst (same.fixed_eq i)]

theorem SameConnections.isOutgoing_eq {context after : Context}
    (same : SameConnections context after) (i : ℕ) :
    (after.connections i).isOutgoing = (context.connections i).isOutgoing :=
  congrArg (fun fixed => fixed.2.1) (same.fixed_eq i)

theorem SameConnections.nodeKey_eq {context after : Context}
    (same : SameConnections context after) (i : ℕ) :
    (after.connections i).nodeKey = (context.connections i).nodeKey :=
  congrArg Prod.fst (same.fixed_eq i)

theorem SameConnections.numberField_eq {context after : Context}
    (same : SameConnections context after) (i : ℕ) :
    (after.connections i).numberField = (context.connections i).numberField := by
  have number : (after.connections i).number = (context.connections i).number :=
    congrArg (fun fixed : BitVec 256 × Bool × ℕ => fixed.2.2) (same.fixed_eq i)
  rw [Connection.numberField, number, Connection.numberField]

/-! ## Runs -/

/-- Messages from other nodes, one after the other -/
def receiveAll (messages : List Incoming) (context : Context) : Context :=
  messages.foldl receive context

theorem receiveAll_concat (messages : List Incoming) (message : Incoming) (context : Context) :
    receiveAll (messages ++ [message]) context = receive (receiveAll messages context) message := by
  rw [receiveAll, List.foldl_append]
  rfl

theorem sameConnections_receiveAll (messages : List Incoming) (context : Context) :
    SameConnections context (receiveAll messages context) := by
  induction messages generalizing context with
  | nil => exact ⟨rfl, fun _ => rfl⟩
  | cons message messages ih => exact (sameConnections_receive context message).trans (ih _)

/-- What is expected of a connection list under the messages of other nodes -/
structure Immutable (context : Context) : Prop where
  issued : ∀ messages i, i < context.count → (context.connections i).isOutgoing = false →
    ((receiveAll messages context).connections i).issued = (context.connections i).issued
  own : ∀ messages message i, i < context.count → (context.connections i).isOutgoing = true →
    ((receive (receiveAll messages context) message).connections i).issued ≠
      ((receiveAll messages context).connections i).issued →
    message.nodeKey = (context.connections i).nodeKey ∧
      (message.content.getDict ADDRESSES).isSome

/-- The first connection with the key of an incoming one is incoming, for those that can be named. -/
def FirstIncoming (context : Context) : Prop :=
  ∀ j, j < context.count → (context.connections j).isOutgoing = false →
    0 ≤ (context.connections j).numberField.toInt →
    ∀ i, connectionByPubKey (context.connections j).nodeKey context = some i →
      (context.connections i).isOutgoing = false

/-- A message changes the addresses of one connection at most, and which one it may be -/
theorem issued_receive {context : Context} {message : Incoming} {i : ℕ}
    (changed : ((receive context message).connections i).issued ≠
      (context.connections i).issued) :
    i < context.count ∧ (context.connections i).nodeKey = message.nodeKey ∧
      (message.content.getDict ADDRESSES).isSome ∧
      ∃ first, connectionByPubKey message.nodeKey context = some first ∧
        (context.connections first).isOutgoing = true ∧
        (i = first ∨ 0 ≤ (context.connections i).numberField.toInt) := by
  rcases receive_cases context message with
    same | ⟨first, conn, addresses, known, outgoing, inside, key, named, offer, after⟩
  · rw [same] at changed
    exact absurd rfl changed
  · by_cases here : i = conn
    · rw [here, offer]
      exact ⟨inside, key, rfl, first, known, outgoing, named⟩
    · rw [after] at changed
      exact absurd (congrArg Connection.issued (Function.update_of_ne here _ _)) changed

theorem issued_receiveAll {context : Context} (fine : FirstIncoming context)
    (messages : List Incoming) {i : ℕ} (inside : i < context.count)
    (incoming : (context.connections i).isOutgoing = false) :
    ((receiveAll messages context).connections i).issued = (context.connections i).issued := by
  induction messages using List.reverseRecOn with
  | nil => rfl
  | append_singleton messages message ih =>
      have same := sameConnections_receiveAll messages context
      rw [receiveAll_concat]
      refine Eq.trans ?_ ih
      by_contra changed
      rcases issued_receive changed with ⟨-, key, -, first, known, outgoing, named⟩
      rw [same.connectionByPubKey_eq, ← key, same.nodeKey_eq] at known
      rw [same.isOutgoing_eq] at outgoing
      rw [same.numberField_eq] at named
      rcases named with rfl | named
      · rw [incoming] at outgoing
        cases outgoing
      · rw [fine i inside incoming named first known] at outgoing
        cases outgoing

/-! ## Lists that calls have made -/

theorem nextConnectionNumber_runAll (calls : List Call) (context : Context) :
    (runAll calls context).nextConnectionNumber =
      context.nextConnectionNumber + calls.length := by
  induction calls generalizing context with
  | nil => rfl
  | cons call calls ih =>
      rw [runAll_cons, ih, run_eq, List.length_cons]
      dsimp only
      omega

theorem count_runAll (calls : List Call) (context : Context) :
    (runAll calls context).count = context.count + calls.length := by
  induction calls generalizing context with
  | nil => rfl
  | cons call calls ih =>
      rw [runAll_cons, ih, count_run, List.length_cons]
      omega

/-- The calls number their connections. -/
theorem numbered_runAll (memory : ℕ → Connection) (addressForPublicKey : BitVec 256 → BitVec 128)
    {calls : List Call} (few : calls.length ≤ 2 ^ 31) :
    (runAll calls (new memory addressForPublicKey)).Numbered := by
  have numbers := (entries_runAll_perm calls (new memory addressForPublicKey)).map (·.number)
  have empty : (new memory addressForPublicKey).entries = [] := rfl
  rw [empty, List.nil_append, numbers_created] at numbers
  have next := nextConnectionNumber_runAll calls (new memory addressForPublicKey)
  have listed {i : ℕ} (inside : i < (runAll calls (new memory addressForPublicKey)).count) :
      i ∈ List.range (runAll calls (new memory addressForPublicKey)).count :=
    List.mem_range.mpr inside
  have start : (new memory addressForPublicKey).nextConnectionNumber = 0 := rfl
  rw [start, Nat.zero_add] at next
  rw [start] at numbers
  constructor
  · rw [next]
    exact few
  · intro i inside
    have known := numbers.mem_iff.mp (List.mem_map_of_mem (List.mem_map_of_mem (listed inside)))
    rw [List.mem_range'_1] at known
    rw [next]
    omega
  · intro i j first second same
    have nodup := numbers.nodup_iff.mpr List.nodup_range'
    rw [Context.entries, List.map_map] at nodup
    exact List.inj_on_of_nodup_map nodup (listed first) (listed second) same

/-- In a list that is ordered, an incoming connection is the first one with its key. -/
theorem firstIncoming_of_isOrdered {context : Context} (ordered : context.IsOrdered) :
    FirstIncoming context := by
  intro j inside incoming _ i known
  by_contra outgoing
  have outgoing := Bool.eq_true_of_not_eq_false outgoing
  unfold connectionByPubKey at known
  rw [List.find?_range_eq_some] at known
  rcases lt_trichotomy i j with before | same | behind
  · rw [ordered i j before inside outgoing] at incoming
    cases incoming
  · rw [same, incoming] at outgoing
    cases outgoing
  · have other := known.2.2 j behind
    simp at other

/-! ## An offer to an incoming connection -/

theorem load32_store32 (word : BitVec 32) : Bytes.load32 (Bytes.store32 word) = word := by
  apply BitVec.eq_of_getLsbD_eq
  intro index inside
  simp only [Bytes.load32, Bytes.store32, List.getD_cons_zero, List.getD_cons_succ,
    BitVec.getLsbD_append, BitVec.getLsbD_extractLsb']
  split_ifs with first second third
  · rw [decide_eq_true first, Bool.true_and, Nat.zero_add]
  · rw [decide_eq_true second, Bool.true_and, show 8 + (index - 8) = index by omega]
  · rw [decide_eq_true (by omega), Bool.true_and,
      show 16 + (index - 8 - 8) = index by omega]
  · rw [decide_eq_true (by omega), Bool.true_and,
      show 24 + (index - 8 - 8 - 8) = index by omega]

/-- The loop comes to the one connection with the number. -/
theorem retargetLoop_of_number {context : Context} {found : ℕ} {rounds i conn : ℕ}
    (only : ∀ other, i ≤ other → other < i + rounds →
      (context.connections other).numberField.toInt =
        (context.connections found).numberField.toInt → other = found)
    (key : (context.connections conn).nodeKey = (context.connections found).nodeKey) :
    retargetLoop (context.connections found).numberField.toInt context rounds i conn =
      some (if i ≤ found ∧ found < i + rounds then found else conn) := by
  induction rounds generalizing i conn with
  | zero =>
      rw [retargetLoop, if_neg (by omega)]
  | succ rounds ih =>
      rw [retargetLoop]
      have later : ∀ other, i + 1 ≤ other → other < i + 1 + rounds →
          (context.connections other).numberField.toInt =
            (context.connections found).numberField.toInt → other = found :=
        fun other behind bound => only other (by omega) (by omega)
      by_cases here : i = found
      · subst here
        rw [if_pos rfl, if_neg (not_not.mpr key), ih later rfl, ite_self, if_pos (by omega)]
      · have apart : ¬(context.connections i).numberField.toInt =
            (context.connections found).numberField.toInt :=
          fun same => here (only i le_rfl (by omega) same)
        rw [if_neg apart, ih later key]
        congr 1
        split_ifs <;> omega

/-- An offer of an IPv6 address by a transaction id -/
def offer (number : BitVec 31) (ip6 : BString) : Dict :=
  .cons TXID (.string (Bytes.store32 (number.signExtend 32)))
    (.cons ADDRESSES (.dict (.cons IP6 (.string ip6) .nil)) .nil)

/-- The offer is for the connection with the number, if that has the same key. -/
theorem target_offer {context : Context} (numbered : context.Numbered) {first found : ℕ}
    {ip6 : BString} (inside : found < context.count)
    (outgoing : (context.connections first).isOutgoing = true)
    (incoming : (context.connections found).isOutgoing = false)
    (known : first < context.count)
    (key : (context.connections first).nodeKey = (context.connections found).nodeKey)
    (named : 0 ≤ (context.connections found).numberField.toInt) :
    target (offer (context.connections found).numberField ip6) first context = some found := by
  have below := numbered.toInt_lt inside
  have apart : first ≠ found := by
    rintro rfl
    rw [outgoing] at incoming
    cases incoming
  have number : (Bytes.load32 (Bytes.store32
      ((context.connections found).numberField.signExtend 32))).toInt =
        (context.connections found).numberField.toInt := by
    rw [load32_store32, BitVec.toInt_signExtend_of_le (by decide)]
  have text : (offer (context.connections found).numberField ip6).getString TXID =
      some (Bytes.store32 ((context.connections found).numberField.signExtend 32)) := by
    simp [offer, Dict.getString, Dict.lookup]
  have other : (context.connections found).numberField.toInt ≠
      (context.connections first).numberField.toInt :=
    fun same => apart (numbered.field_inj known inside same.symm)
  unfold target
  rw [if_neg (by rw [outgoing]; decide), text]
  dsimp only
  rw [if_neg (by simp [Bytes.store32]), number, if_neg (by omega), if_pos other,
    retargetLoop_of_number (fun i _ below same => numbered.field_inj (by omega) inside same) key,
    if_pos (by omega)]

/--
The addresses of incoming connections are immutable exactly if no offer is taken from a
node with one, or its number is negative in 31 bits and so no offer can name it.
-/
theorem immutable_iff {context : Context} (numbered : context.Numbered) :
    Immutable context ↔ FirstIncoming context := by
  constructor
  · intro immutable j inside incoming named i known
    by_contra outgoing
    rcases connectionByPubKey_eq_some known with ⟨bound, key⟩
    have outgoing := Bool.eq_true_of_not_eq_false outgoing
    have changes (ip6 : BString) (whole : ip6.length = 16) :
        wordOf 128 ip6 = (context.connections j).connectionIp6 := by
      have kept := immutable.issued
        [⟨(context.connections j).nodeKey, offer (context.connections j).numberField ip6⟩] j inside
        incoming
      have comes := @target_offer context numbered i j ip6 inside outgoing incoming bound key named
      have getDict : (offer (context.connections j).numberField ip6).getDict ADDRESSES =
          some (.cons IP6 (.string ip6) .nil) := by
        simp [offer, Dict.getDict, Dict.lookup]
      have getString : (Dict.cons IP6 (.string ip6) .nil).getString IP6 = some ip6 := by
        simp [Dict.getString, Dict.lookup]
      have after : receiveAll
          [⟨(context.connections j).nodeKey, offer (context.connections j).numberField ip6⟩]
            context =
          { context with
            connections := Function.update context.connections j
              (withAddresses (.cons IP6 (.string ip6) .nil) (context.connections j)) } := by
        simp only [receiveAll, List.foldl_cons, List.foldl_nil, receive, known,
          incomingDictionary, getDict, incomingAddresses, comes]
      rw [after] at kept
      have issued := (congrArg Connection.issued (Function.update_self j
        (withAddresses (.cons IP6 (.string ip6) .nil) (context.connections j))
        context.connections)).symm.trans kept
      have second := congrArg Prod.snd issued
      unfold withAddresses at second
      rw [getString] at second
      dsimp only at second
      rw [if_pos whole] at second
      exact second
    have zeros := changes (List.replicate 16 0) (List.length_replicate)
    have ones := changes (List.replicate 16 1) (List.length_replicate)
    exact absurd (zeros.trans ones.symm) (by decide +kernel)
  · intro fine
    constructor
    · exact fun messages i inside incoming => issued_receiveAll fine messages inside incoming
    · intro messages message i inside outgoing changed
      have same := sameConnections_receiveAll messages context
      rcases issued_receive changed with ⟨-, key, isOffer, -⟩
      rw [same.nodeKey_eq] at key
      exact ⟨key.symm, isOffer⟩

/-- A list of two clients, one of which this node has connected to as well -/
theorem immutable_two_clients :
    Immutable (runAll [.allow 1 (some 5) none, .connect 2, .allow 2 (some 6) (some 7)]
      (new (fun _ => ⟨0, 0, 0, 0, false, 0⟩) fun key => key.setWidth 128)) := by
  apply (immutable_iff (numbered_runAll _ _ (by decide))).mpr
  apply firstIncoming_of_isOrdered
  intro i j before inside
  rw [count_runAll] at inside
  change j < 0 + 3 at inside
  interval_cases j <;> interval_cases i <;> decide

/-- A node that this one has connected to before it was allowed to connect itself -/
theorem client_takes_address :
    ¬Immutable (runAll [.connect 1, .allow 1 (some 5) none]
      (new (fun _ => ⟨0, 0, 0, 0, false, 0⟩) fun key => key.setWidth 128)) := by
  intro immutable
  have kept := immutable.issued [⟨1, offer 1 (List.replicate 16 1)⟩] 1 (by decide) (by decide)
  exact absurd kept (by decide +kernel)

end Cjdns.IpTunnel
