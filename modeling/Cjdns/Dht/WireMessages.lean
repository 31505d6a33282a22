import Cjdns.Benc.DictLaws
import Cjdns.Dht.ReplyModule

/-!
# Messages of the DHT on the wire

A message is written to a buffer of a fixed size and read from one that is zero behind it. What
the other node reads has the same value for each key, with the entries in reverse.
-/

namespace Cjdns

open CJDHTConstants StandardBencSerializer

/-! ## Values in a mirrored dictionary -/

namespace Dict

variable {key other : BString} {value : Object} {dictionary : Dict}

theorem lookup_mirrorOnto : ∀ {dictionary base : Dict}, dictionary.keys.Nodup →
    (dictionary.mirrorOnto base).lookup key =
      ((dictionary.lookup key).map Object.mirror).or (base.lookup key)
  | .nil, _, _ => rfl
  | .cons first val next, base, distinct => by
      rw [keys, List.nodup_cons] at distinct
      rw [mirrorOnto, lookup_mirrorOnto distinct.2, lookup, lookup]
      split_ifs with same
      · rw [same, lookup_eq_none_iff.mpr distinct.1]
        rfl
      · rfl

theorem lookup_mirror (distinct : dictionary.keys.Nodup) :
    (dictionary.mirrorOnto .nil).lookup key = (dictionary.lookup key).map Object.mirror := by
  rw [lookup_mirrorOnto distinct]
  exact Option.or_none

theorem getString_mirror (distinct : dictionary.keys.Nodup) :
    (dictionary.mirrorOnto .nil).getString key = dictionary.getString key := by
  rw [getString, getString, lookup_mirror distinct]
  cases dictionary.lookup key with
  | none => rfl
  | some value => cases value <;> rfl

theorem getInt_mirror (distinct : dictionary.keys.Nodup) :
    (dictionary.mirrorOnto .nil).getInt key = dictionary.getInt key := by
  rw [getInt, getInt, lookup_mirror distinct]
  cases dictionary.lookup key with
  | none => rfl
  | some value => cases value <;> rfl

theorem getString_putObject_of_ne (apart : other ≠ key) :
    (dictionary.putObject key value).getString other = dictionary.getString other := by
  rw [getString, getString, lookup_putObject_of_ne apart]

theorem getInt_putObject_of_ne (apart : other ≠ key) :
    (dictionary.putObject key value).getInt other = dictionary.getInt other := by
  rw [getInt, getInt, lookup_putObject_of_ne apart]

@[simp]
theorem getString_putObject_self {string : BString} :
    (dictionary.putObject key (.string string)).getString key = some string := by
  rw [getString, lookup_putObject_self]

@[simp]
theorem getInt_putObject_self {number : BitVec 64} :
    (dictionary.putObject key (.integer number)).getInt key = some number := by
  rw [getInt, lookup_putObject_self]

theorem ascending_nil : Ascending .nil :=
  List.Pairwise.nil

end Dict

/-! ## The modules -/

namespace CJDHTConstants

/-- `fn` -/
abbrev QUERY_FN : BString := [0x66, 0x6E]

/-- `pn` -/
abbrev QUERY_PING : BString := [0x70, 0x6E]

end CJDHTConstants

namespace RouterModule

/-- The dictionary that `sendRequest` makes; a ping has no target. -/
def requestDict (queryType transactionId : BString) (searchTarget : Option (BitVec 128))
    (targetKey : BString) : Dict :=
  let asDict := Dict.nil.putObject TXID (.string transactionId)
  let asDict :=
    match searchTarget with
    | some ip6 => asDict.putObject targetKey (.string (bigEndianBytes 16 ip6))
    | none => asDict
  asDict.putObject QUERY (.string queryType)

/-- `handleOutgoing`, for a request -/
def handleRequest (asDict : Dict) : Dict :=
  asDict.putObject PROTOCOL (.integer (Version.CURRENT_PROTOCOL.setWidth 64))

/-- `sendRequest`, as far as the module that sends what has been serialized -/
def sendRequest (queryType transactionId : BString) (searchTarget : Option (BitVec 128))
    (targetKey : BString) : DHTMessage :=
  SerializationModule.handleOutgoing (List.replicate DHTMessage.MAX_SIZE 0)
    (handleRequest (requestDict queryType transactionId searchTarget targetKey))

end RouterModule

/-- The bytes of the message that `incomingDHT` makes -/
def DHTMessage.received (content : BString) : BString :=
  let length := if content.length < MAX_SIZE then content.length else MAX_SIZE
  content.take length ++ List.replicate (MAX_SIZE - length) 0

/-- `handleIncoming` of `SerializationModule`, with `errno` and the byte behind the message; no
dictionary where it stops the message. -/
def SerializationModule.handleIncoming (erange : Bool) (behind : BitVec 8) (bytes : BString) :
    Option Dict :=
  match parseDictionary erange (newReader bytes behind) with
  | .ok (asDict, _) => some asDict
  | .error _ => none

/-- What `handleReply` reads of a reply from an address -/
def Searcher.SearchReply.ofDict (address : Address) (asDict : Dict) : Searcher.SearchReply where
  address := address
  protocol := asDict.getInt PROTOCOL
  txid := asDict.getString TXID
  nodes := asDict.getString NODES
  version := asDict.getString VERSION
  nodeProtocols := asDict.getString NODE_PROTOCOLS

/-! ## From one node to another -/

variable {dictionary : Dict}

theorem length_received (content : BString) :
    (DHTMessage.received content).length = DHTMessage.MAX_SIZE := by
  rw [DHTMessage.received, List.length_append, List.length_take, List.length_replicate]
  split_ifs with short
  · rw [min_self, Nat.add_sub_cancel' short.le]
  · rw [min_eq_left (not_lt.mp short), Nat.sub_self, Nat.add_zero]

/-- What was written with room enough comes first in what is received. -/
theorem received_of_fits (fits : (serializeDictionary dictionary).length ≤ DHTMessage.MAX_SIZE) :
    ∃ zeros, DHTMessage.received (SerializationModule.handleOutgoing
        (List.replicate DHTMessage.MAX_SIZE 0) dictionary).contents =
      serializeDictionary dictionary ++ zeros := by
  have sized : (List.replicate DHTMessage.MAX_SIZE (0 : BitVec 8)).length = DHTMessage.MAX_SIZE :=
    List.length_replicate
  have small : (List.replicate DHTMessage.MAX_SIZE (0 : BitVec 8)).length < 2 ^ 16 := by
    rw [sized]
    decide
  rw [contents_handleOutgoing small, contents_eq_iff.mpr (by rw [sized]; exact fits)]
  refine ⟨_, congrArg (· ++ _) (List.take_of_length_le ?_)⟩
  split_ifs
  · exact le_rfl
  · exact fits

/-- A message that fits, and has no extreme integers, is read as it was written, with its entries
in reverse. -/
theorem handleIncoming_handleOutgoing
    (fits : (serializeDictionary dictionary).length ≤ DHTMessage.MAX_SIZE)
    (plain : dictionary.hasExtreme = false) (erange : Bool) (behind : BitVec 8) :
    SerializationModule.handleIncoming erange behind (DHTMessage.received
        (SerializationModule.handleOutgoing (List.replicate DHTMessage.MAX_SIZE 0)
          dictionary).contents) =
      some (dictionary.mirrorOnto .nil) := by
  have size : DHTMessage.MAX_SIZE = 1536 := rfl
  rcases received_of_fits fits with ⟨zeros, whole⟩
  have length := length_received (SerializationModule.handleOutgoing
    (List.replicate DHTMessage.MAX_SIZE 0) dictionary).contents
  rw [whole] at length
  have word := (@isDictionary_serialize dictionary (by omega)).lenient
  have bound : (newReader (serializeDictionary dictionary ++ zeros) behind).length < 2 ^ 64 := by
    rw [newReader, List.length_append, length, List.length_singleton]
    omega
  have parsed : parseDictionary erange
      (newReader (serializeDictionary dictionary ++ zeros) behind) =
        .ok (dictionary.mirrorOnto .nil, zeros ++ [behind]) :=
    (parseDictionary_eq_ok bound).mpr ⟨_, dictionary, word, rfl, fun _ => plain, by
      rw [newReader, List.append_assoc]⟩
  rw [whole, SerializationModule.handleIncoming, parsed]

theorem Modest.fits {size : ℕ} (modest : Modest size dictionary)
    (small : size < DHTMessage.MAX_SIZE) :
    (serializeDictionary dictionary).length ≤ DHTMessage.MAX_SIZE := by
  have short := modest.short
  rw [serializeDictionary, List.length_cons]
  exact Nat.succ_le_of_lt (lt_of_le_of_lt short small)

/-! ## Requests -/

namespace RouterModule

variable {queryType transactionId targetKey : BString} {searchTarget : Option (BitVec 128)}

/-- The dictionary without the type of the query -/
theorem requestDict_eq : requestDict queryType transactionId searchTarget targetKey =
    Dict.putObject QUERY (.string queryType)
      (match searchTarget with
      | some ip6 =>
          (Dict.nil.putObject TXID (.string transactionId)).putObject targetKey
            (.string (bigEndianBytes 16 ip6))
      | none => Dict.nil.putObject TXID (.string transactionId)) :=
  rfl

theorem ascending_handleRequest :
    Dict.Ascending (handleRequest (requestDict queryType transactionId searchTarget TARGET)) := by
  rw [handleRequest, requestDict_eq]
  cases searchTarget with
  | none => exact Dict.ascending_nil.putObject.putObject.putObject
  | some ip6 => exact Dict.ascending_nil.putObject.putObject.putObject.putObject

theorem modest_handleRequest (named : queryType.length ≤ 2) (numbered : transactionId.length ≤ 8) :
    Modest 213 (handleRequest (requestDict queryType transactionId searchTarget TARGET)) := by
  have current : isExtreme (Version.CURRENT_PROTOCOL.setWidth 64) = false := by decide
  rw [handleRequest, requestDict_eq]
  cases searchTarget with
  | none =>
      refine (((Modest.nil.putString _).putString _).putInt current).mono ?_
      simp only [List.length_cons, List.length_nil]
      omega
  | some ip6 =>
      refine ((((Modest.nil.putString _).putString _).putString _).putInt current).mono ?_
      simp only [List.length_cons, List.length_nil, bigEndianBytes, List.length_map,
        List.length_range]
      omega

/-- A request as it is read at another node -/
structure Asks (queryType transactionId : BString) (searchTarget : Option (BitVec 128))
    (query : Dict) : Prop where
  type : query.getString QUERY = some queryType
  txid : query.getString TXID = some transactionId
  target : query.getString TARGET = searchTarget.map (bigEndianBytes 16)
  protocol : query.getInt PROTOCOL = some (Version.CURRENT_PROTOCOL.setWidth 64)

/-- Every request is read at the node that it is sent to. -/
theorem asks_of_sendRequest (named : queryType.length ≤ 2) (numbered : transactionId.length ≤ 8)
    (erange : Bool) (behind : BitVec 8) :
    ∃ query, SerializationModule.handleIncoming erange behind (DHTMessage.received
        (sendRequest queryType transactionId searchTarget TARGET).contents) = some query ∧
      Asks queryType transactionId searchTarget query := by
  have modest := @modest_handleRequest _ _ searchTarget named numbered
  have distinct := (@ascending_handleRequest queryType transactionId searchTarget).nodup
  refine ⟨_, handleIncoming_handleOutgoing (modest.fits (by decide)) modest.plain erange behind,
    ?_, ?_, ?_, ?_⟩
  · rw [Dict.getString_mirror distinct, handleRequest,
      Dict.getString_putObject_of_ne (by decide), requestDict_eq, Dict.getString_putObject_self]
  · rw [Dict.getString_mirror distinct, handleRequest,
      Dict.getString_putObject_of_ne (by decide), requestDict_eq,
      Dict.getString_putObject_of_ne (by decide)]
    cases searchTarget with
    | none => exact Dict.getString_putObject_self
    | some ip6 =>
        exact (Dict.getString_putObject_of_ne (by decide)).trans Dict.getString_putObject_self
  · rw [Dict.getString_mirror distinct, handleRequest,
      Dict.getString_putObject_of_ne (by decide), requestDict_eq,
      Dict.getString_putObject_of_ne (by decide)]
    cases searchTarget with
    | none => exact Dict.getString_putObject_of_ne (by decide)
    | some ip6 => exact Dict.getString_putObject_self
  · rw [Dict.getInt_mirror distinct, handleRequest, Dict.getInt_putObject_self]

end RouterModule

end Cjdns
