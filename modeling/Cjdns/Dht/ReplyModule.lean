import Cjdns.Benc.BencodeWriter
import Cjdns.Dht.ClosestNodes
import Cjdns.Dht.Search

/-!
# Replies to queries

What the modules of the DHT make of a query: `ReplyModule` repeats the transaction id,
`RouterModule` adds versions and nodes and `SerializationModule` writes what comes of it to a
buffer of a fixed size, with no look at whether there was room.
-/

namespace Cjdns

/-! ## The modules -/

namespace CJDHTConstants

/-- `q` -/
abbrev QUERY : BString := [0x71]

/-- `tar` -/
abbrev TARGET : BString := [0x74, 0x61, 0x72]

/-- `n` -/
abbrev NODES : BString := [0x6E]

/-- `txid` -/
abbrev TXID : BString := [0x74, 0x78, 0x69, 0x64]

/-- `v` -/
abbrev VERSION : BString := [0x76]

/-- `np` -/
abbrev NODE_PROTOCOLS : BString := [0x6E, 0x70]

/-- `p` -/
abbrev PROTOCOL : BString := [0x70]

end CJDHTConstants

open CJDHTConstants

/-- The bytes of a number, most significant first -/
def bigEndianBytes {width : ℕ} (count : ℕ) (number : BitVec width) : List (BitVec 8) :=
  (List.range count).map fun index => number.extractLsb' (8 * (count - 1 - index)) 8

/-- `Address_serialize` -/
def Address.serialize (addr : Address) : List (BitVec 8) :=
  bigEndianBytes 32 addr.key ++ bigEndianBytes 8 addr.path

/-- `struct DHTMessage` behind `SerializationModule` -/
structure DHTMessage where
  bytes : BString
  length : BitVec 16
  asDict : Dict

namespace DHTMessage

abbrev MAX_SIZE : ℕ := 1536

/-- The bytes that are the message -/
def contents (message : DHTMessage) : BString :=
  message.bytes.take message.length.toNat

end DHTMessage

/-- `handleOutgoing` of `ReplyModule`, for a reply to a query -/
def ReplyModule.handleOutgoing (query asDict : Dict) : Dict :=
  match query.getString TXID with
  | some tid => asDict.putObject TXID (.string tid)
  | none => asDict

/-- `handleOutgoing` of `SerializationModule` -/
def SerializationModule.handleOutgoing (bytes : BString) (asDict : Dict) : DHTMessage :=
  let writer := (StandardBencSerializer.writeDictionary asDict (ArrayWriter.new bytes)).2
  { bytes := writer.buffer, length := BitVec.ofNat 16 writer.bytesWritten, asDict := asDict }

variable [AddressCalc]

/-- The table that `NodeStore_addNode` leaves, unless an assertion fails -/
def NodeStore.Added.nodeStore : NodeStore.Added → Option NodeStore
  | .node _ store => some store
  | .null store => some store
  | .aborted => none

/-- What the router module has for a reply. `targetAddr` is on the stack and only its IPv6
address is written, so that its other fields are what was there. -/
structure Responder where
  nodeStore : NodeStore
  gitVersion : List.Vector (BitVec 8) 20
  stackAddr : Address

namespace RouterModule

/-- The version that a query gives for its sender -/
def queryVersion (query : Dict) : BitVec 32 :=
  match query.getInt PROTOCOL with
  | some versionPtr => if versionPtr.toInt ≤ 4294967295 then versionPtr.setWidth 32 else 0
  | none => 0

/-- The target of a query, if it is one for nodes -/
def queryTarget (query : Dict) : Option BString :=
  (query.getString TARGET).filter fun target => target.length = 16

/-- The nodes of a reply, with labels as long as the one for the node that asks -/
def replyNodes (asking : Address) (nodeList : List Node) : BString :=
  nodeList.flatMap fun node =>
    Address.serialize
      { node.address with path := LabelSplicer.getLabelFor node.address.path asking.path }

/-- The versions of the nodes of a reply -/
def replyVersions (nodeList : List Node) : VersionList :=
  (nodeList.zipIdx).foldl (fun versions node => versions.set node.2 node.1.version)
    (VersionList.new (BitVec.ofNat 32 nodeList.length))

/-- `handleQuery`, unless an assertion fails or the fuel for the list of versions does not last -/
def handleQuery (fuel : ℕ) (responder : Responder) (asking : Address) (query asDict : Dict) :
    Option Dict :=
  let version := queryVersion query
  (responder.nodeStore.addNode asking 1 version).nodeStore.bind fun nodeStore =>
    match queryTarget query with
    | none => some (asDict.putObject VERSION (.string responder.gitVersion.toList))
    | some target =>
        let targetAddr := { responder.stackAddr with ip6 := bigEndian 128 target }
        let nodeList := nodeStore.getClosestNodes targetAddr (some asking) (Searcher.K + 5) false
          version
        if nodeList.isEmpty then some asDict
        else
          (VersionList.stringify fuel (replyVersions nodeList)).map fun versionsStr =>
            (asDict.putObject NODES (.string (replyNodes asking nodeList))).putObject
              NODE_PROTOCOLS (.string versionsStr)

/-- `handleOutgoing` of `RouterModule`, for a reply to a query -/
def handleOutgoing (fuel : ℕ) (responder : Responder) (asking : Address) (query asDict : Dict) :
    Option Dict :=
  handleQuery fuel responder asking query
    (asDict.putObject PROTOCOL (.integer (Version.CURRENT_PROTOCOL.setWidth 64)))

end RouterModule

namespace ReplyModule

/-- The dictionary of a reply, when it comes to `SerializationModule` -/
def replyDict (fuel : ℕ) (responder : Responder) (asking : Address) (query : Dict) : Option Dict :=
  if (query.getString QUERY).isNone then none
  else RouterModule.handleOutgoing fuel responder asking query (handleOutgoing query .nil)

/-- `handleIncoming` of `ReplyModule`: the reply, if there is one. The allocator of a message may
be exhausted before the reply is written, and then there is none. -/
def handleIncoming (exhausted : Bool) (fuel : ℕ) (responder : Responder) (asking : Address)
    (query : Dict) : Option DHTMessage :=
  if exhausted then none
  else (replyDict fuel responder asking query).map
    (SerializationModule.handleOutgoing (List.replicate DHTMessage.MAX_SIZE 0))

end ReplyModule

/-! ## What a reply is made of -/

open StandardBencSerializer

omit [AddressCalc] in
theorem hasExtreme_putObject {key : BString} {value : Object} (plain : value.hasExtreme = false) :
    ∀ {dictionary : Dict}, dictionary.hasExtreme = false →
      (dictionary.putObject key value).hasExtreme = false
  | .nil, _ => by
      rw [Dict.putObject, Dict.hasExtreme, plain]
      rfl
  | .cons other val next, rest => by
      rw [Dict.hasExtreme, Bool.or_eq_false_iff] at rest
      rw [Dict.putObject]
      split_ifs
      · rw [Dict.hasExtreme, Dict.hasExtreme, plain, rest.1, rest.2]
        rfl
      · rw [Dict.hasExtreme, plain, rest.2]
        rfl
      · rw [Dict.hasExtreme, rest.1, hasExtreme_putObject plain rest.2]
        rfl

/-- A dictionary without extreme integers that takes no more than so many bytes -/
structure Modest (size : ℕ) (dictionary : Dict) : Prop where
  short : (serializeEntries dictionary).length ≤ size
  plain : dictionary.hasExtreme = false

namespace Modest

variable {size : ℕ} {dictionary : Dict} {key : BString}

omit [AddressCalc]

theorem nil : Modest 1 .nil :=
  ⟨le_rfl, rfl⟩

theorem mono (modest : Modest size dictionary) {more : ℕ} (le : size ≤ more) :
    Modest more dictionary :=
  ⟨le_trans modest.short le, modest.plain⟩

theorem putString (modest : Modest size dictionary) (string : BString) :
    Modest (size + (key.length + 22) + (string.length + 22))
      (dictionary.putObject key (.string string)) where
  short := by
    have put := length_putObject_le key (.string string) dictionary
    have first := length_serializeString_le key
    have second := length_serializeString_le string
    have before := modest.short
    rw [serializeGeneric] at put
    omega
  plain := hasExtreme_putObject rfl modest.plain

theorem putInt (modest : Modest size dictionary) {number : BitVec 64}
    (plain : isExtreme number = false) :
    Modest (size + (key.length + 22) + 23) (dictionary.putObject key (.integer number)) where
  short := by
    have put := length_putObject_le key (.integer number) dictionary
    have first := length_serializeString_le key
    have second := length_ofInt_le number
    have before := modest.short
    rw [serializeGeneric, serializeint64_t, List.length_cons, List.length_append,
      List.length_singleton] at put
    omega
  plain := hasExtreme_putObject (by rw [Object.hasExtreme, plain]) modest.plain

end Modest

omit [AddressCalc] in
theorem length_serialize (addr : Address) : addr.serialize.length = Searcher.SERIALIZED_SIZE := by
  simp [Address.serialize, bigEndianBytes]

omit [AddressCalc] in
theorem length_replyNodes (asking : Address) (nodeList : List Node) :
    (RouterModule.replyNodes asking nodeList).length =
      nodeList.length * Searcher.SERIALIZED_SIZE := by
  rw [RouterModule.replyNodes, List.length_flatMap]
  simp only [length_serialize]
  simp

omit [AddressCalc] in
/-- The size of a list of versions is a number of 32 bits. -/
theorem length_stringify {fuel : ℕ} {list : VersionList} {written : BString}
    (stringified : list.stringify fuel = some written) : written.length < 2 ^ 32 := by
  rw [VersionList.stringify, Option.map_eq_some_iff] at stringified
  rcases stringified with ⟨width, -, rfl⟩
  rw [VersionList.write, ArrayWriter.length_buffer_writeAll]
  change (List.replicate _ _).length < _
  rw [List.length_replicate]
  exact BitVec.isLt _

variable {fuel : ℕ} {responder : Responder} {asking : Address} {query asDict : Dict}

theorem modest_handleQuery {size : ℕ} {dictionary : Dict} (modest : Modest size asDict)
    (reply : RouterModule.handleQuery fuel responder asking query asDict = some dictionary) :
    Modest (size + 2 ^ 33) dictionary := by
  rw [RouterModule.handleQuery] at reply
  rcases Option.bind_eq_some_iff.mp reply with ⟨nodeStore, -, answer⟩
  rcases aimed : RouterModule.queryTarget query with _ | target
  · rw [aimed] at answer
    cases answer
    refine (modest.putString _).mono ?_
    rw [List.Vector.toList_length]
    simp only [List.length_singleton]
    omega
  · rw [aimed] at answer
    dsimp only at answer
    split_ifs at answer with none
    · cases answer
      exact modest.mono (Nat.le_add_right _ _)
    · rcases Option.map_eq_some_iff.mp answer with ⟨versionsStr, stringified, rfl⟩
      have few := (NodeStore.getClosestNodes_answers nodeStore
        ⟨bigEndian 128 target, responder.stackAddr.key, responder.stackAddr.path⟩ asking
        (Searcher.K + 5) false (RouterModule.queryVersion query)).atMost
      have versions := length_stringify stringified
      refine ((modest.putString _).putString _).mono ?_
      rw [length_replyNodes]
      simp only [List.length_cons, List.length_nil]
      have nodes := Nat.mul_le_mul_right Searcher.SERIALIZED_SIZE few
      change _ ≤ (8 + 5) * 40 at nodes
      omega

/-- A reply takes the transaction id and some more. -/
theorem modest_replyDict {dictionary : Dict} {size : ℕ}
    (short : ∀ tid, query.getString TXID = some tid → tid.length ≤ size)
    (reply : ReplyModule.replyDict fuel responder asking query = some dictionary) :
    Modest (size + 2 ^ 34) dictionary := by
  rw [ReplyModule.replyDict] at reply
  split_ifs at reply with none
  have first : Modest (size + 100) (ReplyModule.handleOutgoing query .nil) := by
    rw [ReplyModule.handleOutgoing]
    rcases found : query.getString TXID with _ | tid
    · exact Modest.nil.mono (by omega)
    · have := short tid found
      refine (Modest.nil.putString tid).mono ?_
      simp only [List.length_cons, List.length_nil]
      omega
  refine (modest_handleQuery (first.putInt (by decide)) reply).mono ?_
  simp only [List.length_cons, List.length_nil]
  omega

/-! ## Whole replies -/

omit [AddressCalc] in
/-- A buffer that can be measured in a `short` -/
theorem contents_handleOutgoing {bytes : BString} (short : bytes.length < 2 ^ 16) :
    (SerializationModule.handleOutgoing bytes asDict).contents =
      (writeDictionary asDict (ArrayWriter.new bytes)).2.contents := by
  have inside := (writeDictionary asDict (ArrayWriter.new bytes)).2.inside
  have length : (writeDictionary asDict (ArrayWriter.new bytes)).2.buffer.length =
      bytes.length := by
    rw [writeDictionary_eq, ArrayWriter.length_buffer_writeAll]
    rfl
  rw [DHTMessage.contents, SerializationModule.handleOutgoing, ArrayWriter.contents]
  dsimp only
  rw [BitVec.toNat_ofNat, Nat.mod_eq_of_lt (by omega)]

/-- A reply, if there is one, is read as the dictionary that it was made of. -/
def DHTMessage.Whole (reply : Option DHTMessage) : Prop :=
  ∀ message, reply = some message → ∀ erange, ReadsBack erange message.contents message.asDict

/-- A reply is whole exactly if there is none for want of memory, or if there is room for it. -/
theorem whole_reply_iff {exhausted erange : Bool} {bytes : BString} {behind : BitVec 8}
    {reader : Reader} (small : bytes.length ≤ DHTMessage.MAX_SIZE)
    (parsed : parseDictionary erange (newReader bytes behind) = .ok (query, reader)) :
    DHTMessage.Whole (ReplyModule.handleIncoming exhausted fuel responder asking query) ↔
      exhausted = true ∨ ∀ dictionary,
        ReplyModule.replyDict fuel responder asking query = some dictionary →
          (serializeDictionary dictionary).length ≤ DHTMessage.MAX_SIZE := by
  have size : DHTMessage.MAX_SIZE = 1536 := rfl
  have bound : (newReader bytes behind).length ≤ 1537 := by
    rw [newReader, List.length_append, List.length_singleton]
    omega
  have readable : ∀ {erange dictionary},
      ReplyModule.replyDict fuel responder asking query = some dictionary →
        (ReadsBack erange (SerializationModule.handleOutgoing
            (List.replicate DHTMessage.MAX_SIZE 0) dictionary).contents dictionary ↔
          (serializeDictionary dictionary).length ≤ DHTMessage.MAX_SIZE) := by
    intro erange dictionary reply
    have modest := @modest_replyDict _ _ _ _ _ _ 1537 (fun tid found =>
      le_trans (length_le_of_getString (by omega) parsed found) bound) reply
    have short := modest.short
    have fits : (List.replicate DHTMessage.MAX_SIZE (0 : BitVec 8)).length = 1536 :=
      List.length_replicate
    rw [contents_handleOutgoing (by omega), readsBack_iff (by
      rw [serializeDictionary, List.length_cons]
      omega), modest.plain, fits]
    simp
  rw [ReplyModule.handleIncoming]
  by_cases without : exhausted = true
  · rw [if_pos without]
    simp only [without, true_or, iff_true]
    intro message impossible
    cases impossible
  · rw [if_neg without]
    simp only [without, Bool.false_eq_true, false_or]
    constructor
    · intro whole dictionary reply
      rw [reply] at whole
      exact (readable reply).mp (whole _ rfl false)
    · intro fits message made erange
      rcases Option.map_eq_some_iff.mp made with ⟨dictionary, reply, rfl⟩
      exact (readable reply).mpr (fits dictionary reply)

end Cjdns
