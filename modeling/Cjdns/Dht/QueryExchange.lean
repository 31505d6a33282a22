import Cjdns.Dht.NodeList
import Cjdns.Dht.SearchLife
import Cjdns.Dht.WireMessages

/-!
# Queries and their replies

A search asks a node and reads what it replies, a ping is answered with the version. The request
and the reply are both read as they were meant; the nodes of a reply come with their versions, and
there is nothing in it that stops the node that asked.
-/

namespace Cjdns

open CJDHTConstants

variable [AddressCalc]

/-! ## The list of the versions -/

omit [AddressCalc] in
/-- The loop over the rest of the nodes writes the versions behind those that are written. -/
theorem versions_foldl_set {nodes : List Node} {start : ℕ} {list : VersionList}
    {front back : List (BitVec 32)} (whole : list.versions = front ++ back)
    (place : front.length = start) (left : back.length = nodes.length) :
    ((nodes.zipIdx start).foldl (fun versions node => versions.set node.2 node.1.version)
        list).versions = front ++ nodes.map (·.version) := by
  induction nodes generalizing start list front back with
  | nil =>
      rw [List.length_eq_zero_iff.mp left] at whole
      exact whole
  | cons node nodes ih =>
      rcases back with _ | ⟨first, back⟩
      · cases left
      · rw [List.zipIdx_cons, List.foldl_cons]
        have next : (list.set start node.version).versions = (front ++ [node.version]) ++ back := by
          rw [VersionList.versions_set, whole, ← place, List.set_append_right _ _ le_rfl,
            Nat.sub_self, List.set_cons_zero, List.append_assoc, List.singleton_append]
        rw [ih next (by rw [List.length_append, place, List.length_singleton])
          (Nat.succ_inj.mp left), List.append_assoc, List.singleton_append, List.map_cons]

omit [AddressCalc] in
theorem versions_replyVersions {nodeList : List Node} (few : nodeList.length < 2 ^ 32) :
    (RouterModule.replyVersions nodeList).versions = nodeList.map (·.version) := by
  refine @versions_foldl_set nodeList 0 _ [] _ rfl rfl ?_
  rw [List.length_replicate, BitVec.toNat_ofNat, Nat.mod_eq_of_lt few]

omit [AddressCalc] in
/-- The versions of a few nodes are written and read. -/
theorem exists_stringify {nodeList : List Node} (few : nodeList.length ≤ Searcher.K + 5)
    (finite : ∀ node ∈ nodeList, node.version ≠ BitVec.allOnes 32) :
    ∃ fuel versionsStr,
      VersionList.stringify fuel (RouterModule.replyVersions nodeList) = some versionsStr ∧
        VersionList.parse versionsStr = .ok (some (RouterModule.replyVersions nodeList)) := by
  change nodeList.length ≤ 13 at few
  have versions := @versions_replyVersions nodeList (by omega)
  have narrow := (@VersionList.elementSizes_le (nodeList.map (·.version)) 1 (by norm_num)).2
  apply (VersionList.roundTrips_iff_fits _).mpr
  left
  rw [versions, List.length_map]
  refine ⟨by omega, fun version member => ?_, ?_⟩
  · rcases List.mem_map.mp member with ⟨node, inside, rfl⟩
    exact finite node inside
  · have product := Nat.mul_le_mul narrow few
    omega

/-! ## The reply to a query for nodes -/

namespace RouterModule

/-- The nodes that are told to a node that asks for a target -/
def closestNodes (responder : Responder) (asking : Address) (target : BitVec 128)
    (store : NodeStore) : List Node :=
  store.getClosestNodes { responder.stackAddr with ip6 := target } (some asking) (Searcher.K + 5)
    false Version.CURRENT_PROTOCOL

end RouterModule

/-- A reply to a query for nodes as it is read -/
structure Told (txid : BString) (asking sender : Address) (nodeList : List Node)
    (reply : Searcher.SearchReply) : Prop where
  address_eq : reply.address = sender
  txid_eq : reply.txid = some txid
  version_eq : Searcher.senderVersion reply.toReply = Version.CURRENT_PROTOCOL
  nodes_eq : reply.nodes =
    if nodeList.isEmpty then none else some (RouterModule.replyNodes asking nodeList)
  versions_eq : nodeList.isEmpty = false → ∃ versionsStr list,
    reply.nodeProtocols = some versionsStr ∧ VersionList.parse versionsStr = .ok (some list) ∧
      list.versions = nodeList.map (·.version)

variable {fuel : ℕ} {responder : Responder} {asking sender own : Address} {query : Dict}
  {txid : BString} {target : BitVec 128} {store : NodeStore}

omit [AddressCalc] in
theorem queryVersion_of_asks {queryType : BString} {searchTarget : Option (BitVec 128)}
    (asks : RouterModule.Asks queryType txid searchTarget query) :
    RouterModule.queryVersion query = Version.CURRENT_PROTOCOL := by
  rw [RouterModule.queryVersion, asks.protocol]
  rfl

omit [AddressCalc] in
theorem queryTarget_of_asks {queryType : BString} {searchTarget : Option (BitVec 128)}
    (asks : RouterModule.Asks queryType txid searchTarget query) :
    RouterModule.queryTarget query = searchTarget.map (bigEndianBytes 16) := by
  rw [RouterModule.queryTarget, asks.target]
  cases searchTarget with
  | none => rfl
  | some target =>
      have length := length_bigEndianBytes 16 target
      simp [length]

/-- What is replied to any query, to begin with -/
def replyBase (txid : BString) : Dict :=
  (Dict.nil.putObject TXID (.string txid)).putObject PROTOCOL
    (.integer (Version.CURRENT_PROTOCOL.setWidth 64))

omit [AddressCalc] in
theorem ascending_replyBase : Dict.Ascending (replyBase txid) :=
  Dict.ascending_nil.putObject.putObject

omit [AddressCalc] in
theorem modest_replyBase (numbered : txid.length ≤ 8) : Modest 103 (replyBase txid) := by
  have current : isExtreme (Version.CURRENT_PROTOCOL.setWidth 64) = false := by decide
  refine ((Modest.nil.putString txid).putInt current).mono ?_
  simp only [List.length_cons, List.length_nil]
  omega

omit [AddressCalc] in
theorem getString_replyBase : (replyBase txid).getString TXID = some txid := by
  rw [replyBase, Dict.getString_putObject_of_ne (by decide), Dict.getString_putObject_self]

omit [AddressCalc] in
theorem getString_replyBase_of_ne {key : BString} (named : key ≠ TXID) (other : key ≠ PROTOCOL) :
    (replyBase txid).getString key = none := by
  rw [replyBase, Dict.getString_putObject_of_ne other, Dict.getString_putObject_of_ne named]
  rfl

omit [AddressCalc] in
theorem getInt_replyBase :
    (replyBase txid).getInt PROTOCOL = some (Version.CURRENT_PROTOCOL.setWidth 64) := by
  rw [replyBase, Dict.getInt_putObject_self]

/-- What is replied to a query for nodes, if there are any -/
def replyTelling (txid nodes versionsStr : BString) : Dict :=
  ((replyBase txid).putObject NODES (.string nodes)).putObject NODE_PROTOCOLS (.string versionsStr)

omit [AddressCalc] in
theorem ascending_replyTelling {nodes versionsStr : BString} :
    Dict.Ascending (replyTelling txid nodes versionsStr) :=
  ascending_replyBase.putObject.putObject

omit [AddressCalc] in
theorem modest_replyTelling {nodes versionsStr : BString} (numbered : txid.length ≤ 8)
    (few : nodes.length ≤ 520) (short : versionsStr.length ≤ 53) :
    Modest 770 (replyTelling txid nodes versionsStr) := by
  refine (((modest_replyBase numbered).putString nodes).putString versionsStr).mono ?_
  simp only [List.length_cons, List.length_nil]
  omega

omit [AddressCalc] in
theorem told_replyBase : Told txid asking sender [] (.ofDict sender (replyBase txid)) where
  address_eq := rfl
  txid_eq := getString_replyBase
  version_eq := by
    rw [Searcher.senderVersion, Searcher.SearchReply.ofDict, getInt_replyBase]
    rfl
  nodes_eq := by
    rw [List.isEmpty_nil, if_pos rfl]
    change (replyBase txid).getString NODES = none
    exact getString_replyBase_of_ne (by decide) (by decide)
  versions_eq impossible := by cases impossible

omit [AddressCalc] in
theorem told_replyTelling {nodeList : List Node} {versionsStr : BString}
    (filled : nodeList.isEmpty = false) (few : nodeList.length ≤ Searcher.K + 5)
    (parsed : VersionList.parse versionsStr =
      .ok (some (RouterModule.replyVersions nodeList))) :
    Told txid asking sender nodeList (.ofDict sender
      (replyTelling txid (RouterModule.replyNodes asking nodeList) versionsStr)) where
  address_eq := rfl
  txid_eq := by
    rw [Searcher.SearchReply.ofDict, replyTelling, Dict.getString_putObject_of_ne (by decide),
      Dict.getString_putObject_of_ne (by decide), getString_replyBase]
  version_eq := by
    rw [Searcher.senderVersion, Searcher.SearchReply.ofDict, replyTelling,
      Dict.getInt_putObject_of_ne (by decide), Dict.getInt_putObject_of_ne (by decide),
      getInt_replyBase]
    rfl
  nodes_eq := by
    rw [filled, if_neg Bool.false_ne_true]
    change (replyTelling txid _ versionsStr).getString NODES = _
    rw [replyTelling, Dict.getString_putObject_of_ne (by decide), Dict.getString_putObject_self]
  versions_eq _ := by
    change nodeList.length ≤ 13 at few
    refine ⟨versionsStr, _, ?_, parsed, versions_replyVersions (by omega)⟩
    change (replyTelling txid (RouterModule.replyNodes asking nodeList) versionsStr).getString
      NODE_PROTOCOLS = _
    rw [replyTelling, Dict.getString_putObject_self]

theorem replyDict_of_asks {queryType : BString} {searchTarget : Option (BitVec 128)}
    (asks : RouterModule.Asks queryType txid searchTarget query) :
    ReplyModule.replyDict fuel responder asking query =
      RouterModule.handleQuery fuel responder asking query (replyBase txid) := by
  rw [ReplyModule.replyDict, asks.type, if_neg (by simp), RouterModule.handleOutgoing,
    ReplyModule.handleOutgoing, asks.txid]
  rfl

omit [AddressCalc] in
theorem ofDict_mirror {dictionary : Dict} (ascending : dictionary.Ascending) :
    Searcher.SearchReply.ofDict sender (dictionary.mirrorOnto .nil) =
      .ofDict sender dictionary := by
  simp only [Searcher.SearchReply.ofDict, Dict.getString_mirror ascending.nodup,
    Dict.getInt_mirror ascending.nodup]

theorem exists_message {dictionary : Dict} {size : ℕ}
    (reply : ReplyModule.replyDict fuel responder asking query = some dictionary)
    (modest : Modest size dictionary) (small : size < DHTMessage.MAX_SIZE) :
    ∃ message, ReplyModule.handleIncoming false fuel responder asking query = some message ∧
      ∀ erange behind, SerializationModule.handleIncoming erange behind
        (DHTMessage.received message.contents) = some (dictionary.mirrorOnto .nil) := by
  refine ⟨_, ?_, handleIncoming_handleOutgoing (modest.fits small) modest.plain⟩
  rw [ReplyModule.handleIncoming, if_neg Bool.false_ne_true, reply, Option.map_some]

omit [AddressCalc] in
/-- The versions of all nodes of a reply take no more than four bytes each. -/
theorem length_versionsStr_le {versionsStr : BString} {nodeList : List Node}
    (few : nodeList.length ≤ Searcher.K + 5)
    (written : VersionList.stringify fuel (RouterModule.replyVersions nodeList) =
      some versionsStr) : versionsStr.length ≤ 53 := by
  change nodeList.length ≤ 13 at few
  have narrow := (@VersionList.elementSizes_le ((RouterModule.replyVersions nodeList).versions.take
    (RouterModule.replyVersions nodeList).rounds) 1 (by norm_num)).2
  have product := Nat.mul_le_mul narrow few
  rw [(VersionList.stringify_iff.mp ⟨fuel, written⟩).2, VersionList.length_write narrow]
  refine le_trans (Nat.mod_le _ _) ?_
  have length : (RouterModule.replyVersions nodeList).versions.length = nodeList.length := by
    rw [versions_replyVersions (by omega), List.length_map]
  rw [length]
  omega

/-- A query for nodes is answered, and the reply is read. -/
theorem told_of_asks {queryType : BString} (sender : Address)
    (asks : RouterModule.Asks queryType txid (some target) query) (numbered : txid.length ≤ 8)
    (added : (responder.nodeStore.addNode asking 1 Version.CURRENT_PROTOCOL).nodeStore =
      some store)
    (finite : ∀ node ∈ RouterModule.closestNodes responder asking target store,
      node.version ≠ BitVec.allOnes 32) :
    ∃ fuel message, ReplyModule.handleIncoming false fuel responder asking query = some message ∧
      ∀ erange behind, ∃ dictionary, SerializationModule.handleIncoming erange behind
          (DHTMessage.received message.contents) = some dictionary ∧
        Told txid asking sender (RouterModule.closestNodes responder asking target store)
          (.ofDict sender dictionary) := by
  have few : (RouterModule.closestNodes responder asking target store).length ≤ Searcher.K + 5 :=
    (NodeStore.getClosestNodes_answers store { responder.stackAddr with ip6 := target } asking
      (Searcher.K + 5) false Version.CURRENT_PROTOCOL).atMost
  have aimed : bigEndian 128 (bigEndianBytes 16 target) = target :=
    bigEndian_bigEndianBytes 16 target target.isLt
  have answer (fuel : ℕ) : ReplyModule.replyDict fuel responder asking query =
      if (RouterModule.closestNodes responder asking target store).isEmpty then
        some (replyBase txid)
      else
        (VersionList.stringify fuel (RouterModule.replyVersions
            (RouterModule.closestNodes responder asking target store))).map fun versionsStr =>
          replyTelling txid (RouterModule.replyNodes asking
            (RouterModule.closestNodes responder asking target store)) versionsStr := by
    rw [replyDict_of_asks asks, RouterModule.handleQuery, queryVersion_of_asks asks,
      queryTarget_of_asks asks, added]
    dsimp only [Option.bind_some, Option.map_some]
    rw [aimed]
    rfl
  generalize RouterModule.closestNodes responder asking target store = nodeList at *
  rcases empty : nodeList.isEmpty with _ | _
  · rcases exists_stringify few finite with ⟨fuel, versionsStr, written, parsed⟩
    have reply := answer fuel
    rw [empty, if_neg Bool.false_ne_true, written, Option.map_some] at reply
    have nodes : (RouterModule.replyNodes asking nodeList).length ≤ 520 := by
      rw [length_replyNodes]
      exact Nat.mul_le_mul_right 40 few
    have modest := modest_replyTelling numbered nodes (length_versionsStr_le few written)
    rcases exists_message reply modest (by decide) with ⟨message, sent, read⟩
    refine ⟨fuel, message, sent, fun erange behind => ⟨_, read erange behind, ?_⟩⟩
    rw [ofDict_mirror ascending_replyTelling]
    exact told_replyTelling empty few parsed
  · have reply := answer 0
    rw [empty, if_pos rfl] at reply
    rcases exists_message reply (modest_replyBase numbered) (by decide) with ⟨message, sent, read⟩
    refine ⟨0, message, sent, fun erange behind => ⟨_, read erange behind, ?_⟩⟩
    rw [ofDict_mirror ascending_replyBase, List.isEmpty_iff.mp empty]
    exact told_replyBase

/-! ## What the node that asked makes of the reply -/

namespace Searcher

open SearchStore (Search Searches Asked NodeIndex MAX_SEARCHES SEARCH_NODES)
open RouterModule (closestNodes sendRequest)

variable {searcher later now : Searcher} {chance : SearchChance} {slot : Fin MAX_SEARCHES}
  {search : Search} {reply : SearchReply} {nodeList : List Node} {asked : Asked}
  {address : Address} {outputs : List SearchOutput}

omit [AddressCalc] in
/-- A search that is in its slot is found by a transaction id that it has given out. -/
theorem getNode_of_named {searches : Searches} {position : Fin SEARCH_NODES} {magic : BitVec 32}
    (occupied : searches slot = some search)
    (named : (search.nodesAsked position).txid = some (NodeIndex.bytes
      { search := BitVec.ofNat 16 slot, node := BitVec.ofNat 16 position, magic := magic })) :
    SearchStore.getNode (NodeIndex.bytes
        { search := BitVec.ofNat 16 slot, node := BitVec.ofNat 16 position, magic := magic })
      searches = some { slot := slot, search := search, node := search.nodesAsked position } := by
  have first : (slot : ℕ) < 8 := slot.isLt
  have second : (position : ℕ) < 256 := position.isLt
  have slotEq : (BitVec.ofNat 16 (slot : ℕ)).toNat = slot := by
    rw [BitVec.toNat_ofNat, Nat.mod_eq_of_lt (by omega)]
  have positionEq : (BitVec.ofNat 16 (position : ℕ)).toNat = position := by
    rw [BitVec.toNat_ofNat, Nat.mod_eq_of_lt (by omega)]
  rw [SearchStore.getNode, NodeIndex.ofBytes_bytes, Option.bind_some]
  simp only [slotEq, positionEq, Fin.eta, slot.isLt, position.isLt, and_self, dite_true, occupied,
    Option.bind_some, named, if_true]

/-- While a search does not go on, the node that it has asked is found by the transaction id. -/
structure Awaits (slot : Fin MAX_SEARCHES) (search : Search) (txid : BString) (address : Address)
    (searches : Searches) : Prop where
  numbered : txid.length ≤ 8
  found : ∃ asked, SearchStore.getNode txid searches = some asked ∧ asked.slot = slot ∧
    asked.node.address = address ∧ asked.search.id = search.id ∧
      asked.search.callbackContext.targetAddress = search.callbackContext.targetAddress

theorem awaits_of_searchStep (steps : searcher.searchStep chance slot search = (later, outputs))
    (sent : .request address txid target ∈ outputs)
    (still : now.searches slot = later.searches slot) :
    Awaits slot search txid address now.searches ∧
      target = search.callbackContext.targetAddress.ip6 := by
  rw [searchStep] at steps
  cases stack : search.searchStack with
  | nil =>
      simp only [SearchStore.getNextNode, stack, endSearch, Prod.mk.injEq] at steps
      rw [← steps.2] at sent
      split_ifs at sent <;> simp at sent
  | cons first rest =>
      simp only [SearchStore.getNextNode, stack] at steps
      split_ifs at steps with many
      · simp only [endSearch, Prod.mk.injEq] at steps
        rw [← steps.2] at sent
        split_ifs at sent <;> simp at sent
      · rw [Prod.mk.injEq] at steps
        rcases steps with ⟨rfl, rfl⟩
        simp only [Function.update_self, Option.getD_some, List.mem_singleton,
          SearchOutput.request.injEq] at sent
        rcases sent with ⟨rfl, rfl, rfl⟩
        rw [withSearch] at still
        dsimp only at still
        rw [Function.update_self] at still
        have named := @getNode_of_named slot _ now.searches search.nodesAskedIndex chance.magic
          still (by simp only [Function.update_self])
        exact ⟨⟨le_rfl, _, named, rfl, by simp only [Function.update_self], rfl, rfl⟩, rfl⟩

/-! ## Honest replies -/

omit [AddressCalc] in
theorem nodes_of_told (told : Told txid asking sender nodeList reply) {nodes : List (BitVec 8)}
    (gives : reply.nodes = some nodes) :
    nodeList.isEmpty = false ∧ nodes = RouterModule.replyNodes asking nodeList := by
  have given := told.nodes_eq
  rw [gives] at given
  split_ifs at given with empty
  exact ⟨Bool.eq_false_iff.mpr empty, Option.some.inj given⟩

omit [AddressCalc] in
theorem versionsOf_of_told (told : Told txid asking sender nodeList reply)
    (filled : nodeList.isEmpty = false) :
    versionsOf (senderVersion reply.toReply) reply = .ok (some (nodeList.map (·.version))) := by
  rcases told.versions_eq filled with ⟨versionsStr, list, given, parsed, versions⟩
  rw [versionsOf, told.version_eq, given, ← versions]
  dsimp only
  rw [parsed]
  rfl

omit [AddressCalc] in
/-- The list of versions is not empty, so that it ends where it says. -/
theorem terminated_of_told (told : Told txid asking sender nodeList reply)
    {nodes : List (BitVec 8)} (gives : reply.nodes = some nodes) : terminated reply = reply := by
  have given := told.nodes_eq
  rw [gives] at given
  split_ifs at given with empty
  rcases told.versions_eq (Bool.eq_false_iff.mpr empty) with ⟨versionsStr, list, same, parsed, -⟩
  have filled : versionsStr ≠ [] := by
    rintro rfl
    cases parsed
  rw [terminated, same, Option.map_some, if_neg filled, ← same]

/-- What is told honestly has a version for every node. -/
theorem acceptable_of_told (told : Told txid asking sender nodeList reply)
    {nodes : List (BitVec 8)} {nodeStore : NodeStore} (gives : reply.nodes = some nodes)
    (counted : ∀ progress, Comes (readingOf reply asked nodeStore nodes
        (some (nodeList.map (·.version)))) nodeStore asked.search progress →
      ¬ Overruns (readingOf reply asked nodeStore nodes (some (nodeList.map (·.version))))
        progress) :
    Acceptable reply asked nodes nodeStore := by
  rcases nodes_of_told told gives with ⟨filled, rfl⟩
  have versions := versionsOf_of_told told filled
  refine ⟨fun missing => ?_, fun other reads => ?_⟩
  · have old := missing.1
    rw [told.version_eq] at old
    exact absurd old (by decide)
  · rw [terminated_of_told told gives, versions, Except.ok.injEq] at reads
    subst reads
    refine ⟨fun i unlisted => ?_, counted⟩
    rcases unlisted.short with ⟨list, same, short⟩
    have inside : i < (RouterModule.replyNodes asking nodeList).length := unlisted.inside
    change some (nodeList.map (·.version)) = some list at same
    rw [← Option.some.inj same, List.length_map] at short
    rw [length_replyNodes] at inside
    change nodeList.length ≤ i / 40 at short
    change i < nodeList.length * 40 at inside
    omega

/-- A reply that tells nodes honestly, as it comes to the node that has asked -/
structure Answered (asking sender : Address) (nodeList : List Node) (id : ℕ)
    (reply : SearchReply) (now : Searcher) : Prop where
  /-- Each node is heard as it was meant, with its version. -/
  entries : ∀ own index node, nodeList[index]? = some node →
    ∃ nodes versions, reply.nodes = some nodes ∧
      versionsOf (senderVersion reply.toReply) reply = .ok (some versions) ∧
      hear own sender nodes (SERIALIZED_SIZE * index) =
        .ok (meant own asking sender nodeList index node) ∧
      Checked.elementAt versions (SERIALIZED_SIZE * index / SERIALIZED_SIZE) = .ok node.version
  /-- It is survived while the count of the labels is right. -/
  survives : ∀ chance, Known chance reply now →
    ¬ SenderRefused reply now.routerModule.nodeStore →
    (∀ asked nodes nodeStore, Expected chance reply now asked nodes nodeStore →
      ∀ progress, Comes (readingOf reply asked nodeStore nodes (some (nodeList.map (·.version))))
          nodeStore asked.search progress →
        ¬ Overruns (readingOf reply asked nodeStore nodes (some (nodeList.map (·.version))))
          progress) →
    Checked.Safe (handleReply chance reply now)
  /-- The search that has asked goes on. -/
  advances : ∀ chance replied, Known chance reply now →
    handleReply chance reply now = .ok replied →
      ∃ outputs, replied.advanced = some (id, outputs)

theorem entries_of_told (told : Told txid asking sender nodeList reply) {index : ℕ} {node : Node}
    (own : Address) (found : nodeList[index]? = some node) :
    ∃ nodes versions, reply.nodes = some nodes ∧
      versionsOf (senderVersion reply.toReply) reply = .ok (some versions) ∧
      hear own sender nodes (SERIALIZED_SIZE * index) =
        .ok (meant own asking sender nodeList index node) ∧
      Checked.elementAt versions (SERIALIZED_SIZE * index / SERIALIZED_SIZE) =
        .ok node.version := by
  have filled : nodeList.isEmpty = false := by
    rcases nodeList with _ | _
    · cases found
    · rfl
  have gives := told.nodes_eq
  rw [filled, if_neg Bool.false_ne_true] at gives
  refine ⟨_, _, gives, versionsOf_of_told told filled, hear_replyNodes found, ?_⟩
  rw [Nat.mul_div_cancel_left _ (by decide), Checked.elementAt, List.getElem?_map, found]
  rfl

omit [AddressCalc] in
/-- What names a search is no pong. -/
theorem pongSlot_of_getNode {searches : Searches}
    (found : SearchStore.getNode txid searches = some asked) :
    RouterModule.pongSlot reply.toReply txid = none := by
  rcases Option.bind_eq_some_iff.mp found with ⟨index, shape, -⟩
  unfold RouterModule.pongSlot
  split
  · cases shape
  · rfl

/-- A reply with nothing or with nodes in it gets to the search. -/
theorem handleTid_of_told (told : Told txid asking sender nodeList reply) {searches : Searches}
    (found : SearchStore.getNode txid searches = some asked) (node : ℕ)
    (routerModule : RouterModule) :
    RouterModule.handleTid chance.toChance reply.toReply node routerModule =
      .plain routerModule .toSearch := by
  cases gives : reply.nodes with
  | none =>
      simp only [RouterModule.handleTid, told.txid_eq, pongSlot_of_getNode found, gives]
  | some nodes =>
      rcases nodes_of_told told gives with ⟨filled, rfl⟩
      refine handleTid_of_nodes told.txid_eq gives ?_ ?_
      · rw [length_replyNodes]
        exact Nat.mul_ne_zero (by simpa using filled) (by decide)
      · exact ⟨_, by rw [length_replyNodes, Nat.mul_comm]⟩

/-- An honest reply to the node that waits for it -/
theorem answered_of_told (told : Told txid asking sender nodeList reply)
    (awaits : Awaits slot search txid address now.searches) (same : address.key = sender.key) :
    Answered asking sender nodeList search.id reply now := by
  rcases awaits.found with ⟨asked, found, -, rfl, id_eq, -⟩
  have finds : (reply.txid.bind fun tid => SearchStore.getNode tid now.searches) = some asked := by
    rw [told.txid_eq]
    exact found
  have sameIp : asked.node.address.isSameIp reply.address = true := by
    rw [told.address_eq]
    exact beq_iff_eq.mpr same
  refine ⟨fun own index node => entries_of_told told own, ?_, ?_⟩
  · rintro chance ⟨node, present, sameKey⟩ unrefused counted
    rcases not_senderRefused_iff.mp unrefused with ⟨added, after, adds⟩
    apply (handleReply_of_added present sameKey adds).mpr
    intro toSearch
    rw [handleSearchReply, finds]
    dsimp only
    rw [if_pos sameIp]
    cases gives : reply.nodes with
    | none =>
        rw [handleExpected, gives]
        exact Checked.safe_ok _
    | some nodes =>
        have shape := (handleTid_toSearch toSearch).2 nodes gives
        rw [← terminated_of_told told gives]
        refine (handleExpected_safe_iff gives shape.2 rfl).mpr (acceptable_of_told told gives ?_)
        exact counted asked nodes _
          ⟨finds, sameIp, gives, shape.1, shape.2, added, after, adds, rfl⟩
  · rintro chance replied ⟨node, present, sameKey⟩ handles
    rw [handleReply, present] at handles
    dsimp only at handles
    rw [if_neg (not_not.mpr sameKey)] at handles
    cases adds : now.routerModule.nodeStore.addNode reply.address 2
        (senderVersion reply.toReply) with
    | null after => simp [adds] at handles
    | aborted => simp [adds] at handles
    | node added after =>
        rw [adds] at handles
        dsimp only at handles
        have searched (routerModule : RouterModule) :
            (RouterModule.Handled.plain routerModule .toSearch).verdict = .toSearch := rfl
        rw [handleTid_of_told told found, if_pos (searched _), handleSearchReply, finds] at handles
        dsimp only at handles
        rw [if_pos sameIp, handleExpected] at handles
        cases gives : reply.nodes with
        | none =>
            rw [gives, Except.ok.injEq] at handles
            exact ⟨_, by rw [← handles, proceed, id_eq]⟩
        | some nodes =>
            rw [gives] at handles
            rcases Checked.bind_eq_ok.mp handles with ⟨absorbed, absorbs, ends⟩
            rw [Except.ok.injEq] at ends
            rcases restacked_absorbReply absorbs with ⟨stack, restacked⟩
            exact ⟨_, by rw [← ends, proceed, restacked, id_eq]⟩

/-- A search that has not asked anyone yet -/
def unaskedSearch : Search :=
  { askedSender.search with
    searchStack := [numbered 4 0x135]
    nodesAskedIndex := 0
    nodesAsked := fun _ => SearchStore.SearchNode.unused }

/-- A node that knows another one -/
def knowing : Responder where
  nodeStore :=
    { thisNodeAddress := numbered 4 1
      capacity := 8
      entries := [usedNode (numbered 2 0x15)]
      labelSum := 4 }
  gitVersion := List.Vector.replicate 20 0
  stackAddr := numbered 0 0

end Searcher

/-! ## Pings -/

/-- What is replied to a ping -/
def replyPong (txid gitVersion : BString) : Dict :=
  (replyBase txid).putObject VERSION (.string gitVersion)

omit [AddressCalc] in
theorem ascending_replyPong {gitVersion : BString} : Dict.Ascending (replyPong txid gitVersion) :=
  ascending_replyBase.putObject

omit [AddressCalc] in
theorem modest_replyPong {gitVersion : BString} (numbered : txid.length ≤ 8)
    (sized : gitVersion.length = 20) : Modest 168 (replyPong txid gitVersion) := by
  refine ((modest_replyBase numbered).putString gitVersion).mono ?_
  simp only [List.length_cons, List.length_nil]
  omega

omit [AddressCalc] in
theorem ofDict_replyPong {gitVersion : BString} :
    Searcher.SearchReply.ofDict sender (replyPong txid gitVersion) =
      { address := sender
        protocol := some (Version.CURRENT_PROTOCOL.setWidth 64)
        txid := some txid
        nodes := none
        version := some gitVersion
        nodeProtocols := none } := by
  rw [Searcher.SearchReply.ofDict, replyPong, Dict.getInt_putObject_of_ne (by decide),
    getInt_replyBase, Dict.getString_putObject_of_ne (show TXID ≠ VERSION by decide),
    getString_replyBase, Dict.getString_putObject_of_ne (show NODES ≠ VERSION by decide),
    getString_replyBase_of_ne (by decide) (by decide), Dict.getString_putObject_self,
    Dict.getString_putObject_of_ne (show NODE_PROTOCOLS ≠ VERSION by decide),
    getString_replyBase_of_ne (by decide) (by decide)]

/-- A ping is answered with the version. -/
theorem ponged_of_asks (sender : Address)
    (asks : RouterModule.Asks QUERY_PING txid none query) (numbered : txid.length ≤ 8)
    (added : (responder.nodeStore.addNode asking 1 Version.CURRENT_PROTOCOL).nodeStore =
      some store) :
    ∃ message, (∀ fuel,
        ReplyModule.handleIncoming false fuel responder asking query = some message) ∧
      ∀ erange behind, ∃ dictionary,
        SerializationModule.handleIncoming erange behind (DHTMessage.received message.contents) =
            some dictionary ∧
          Searcher.SearchReply.ofDict sender dictionary =
            { address := sender
              protocol := some (Version.CURRENT_PROTOCOL.setWidth 64)
              txid := some txid
              nodes := none
              version := some responder.gitVersion.toList
              nodeProtocols := none } := by
  have answer (fuel : ℕ) : ReplyModule.replyDict fuel responder asking query =
      some (replyPong txid responder.gitVersion.toList) := by
    rw [replyDict_of_asks asks, RouterModule.handleQuery, queryVersion_of_asks asks,
      queryTarget_of_asks asks, added]
    rfl
  have modest := modest_replyPong numbered responder.gitVersion.toList_length
  have read := handleIncoming_handleOutgoing (modest.fits (by decide)) modest.plain
  refine ⟨_, fun fuel => ?_, fun erange behind => ⟨_, read erange behind, ?_⟩⟩
  · rw [ReplyModule.handleIncoming, if_neg Bool.false_ne_true, answer, Option.map_some]
  · rw [ofDict_mirror ascending_replyPong, ofDict_replyPong]

namespace Searcher

open RouterModule (Ping PingResponse Request MAX_CONCURRENT_PINGS pingNode sendRequest)

variable {now : Searcher} {chance : SearchChance} {reply : SearchReply}
  {index : Fin MAX_CONCURRENT_PINGS} {ping : Ping}

/-- A ping that comes back, with the version of the node that was pinged -/
structure Ponged (index : Fin MAX_CONCURRENT_PINGS) (ping : Ping)
    (gitVersion : List.Vector (BitVec 8) 20) (now : Searcher) (replied : Replied) : Prop where
  completed : ∃ lag, replied.completed = some
    { ping := ping
      lag := lag
      response :=
        if ping.isFromAdmin then
          some { txid := ping.txid, timeout := false, ms := lag, version := some gitVersion.toList }
        else none }
  pings_eq : replied.searcher.routerModule.pings =
    Function.update now.routerModule.pings index none
  searches_eq : replied.searcher.searches = now.searches

/-- A pong of a node in the table completes the ping that it names. -/
theorem ponged_of_reply {gitVersion : List.Vector (BitVec 8) 20}
    (named : reply.txid = some [0x70, BitVec.ofNat 8 index]) (plain : reply.nodes = none)
    (tells : reply.version = some gitVersion.toList) (known : Known chance reply now)
    (unrefused : ¬ SenderRefused reply now.routerModule.nodeStore)
    (waits : now.routerModule.pings index = some ping) :
    ∃ replied, handleReply chance reply now = .ok replied ∧
      Ponged index ping gitVersion now replied := by
  rcases known with ⟨node, present, sameKey⟩
  rcases not_senderRefused_iff.mp unrefused with ⟨added, after, adds⟩
  have small : (index : ℕ) < 128 := index.isLt
  have slot : (BitVec.ofNat 8 (index : ℕ)).toNat = index := by
    rw [BitVec.toNat_ofNat, Nat.mod_eq_of_lt (by omega)]
  have completes : RouterModule.handleTid chance.toChance reply.toReply added
      { now.routerModule with nodeStore := after } =
        RouterModule.completePing chance.toChance reply.toReply added index ping
          { now.routerModule with nodeStore := after } := by
    simp only [RouterModule.handleTid, named, RouterModule.pongSlot, plain, if_true,
      RouterModule.handlePong, slot, index.isLt, dite_true, Fin.eta, waits]
  have length : gitVersion.toList.length = 20 := gitVersion.toList_length
  rw [handleReply, present]
  dsimp only
  rw [if_neg (not_not.mpr sameKey), adds]
  dsimp only
  rw [completes]
  refine ⟨_, if_neg (by simp [RouterModule.completePing]),
    ⟨(chance.now - ping.timeSent.setWidth 64).setWidth 32, ?_⟩, rfl, rfl⟩
  rw [RouterModule.completePing]
  dsimp only
  have kept : Option.filter (·.length == 20) (some gitVersion.toList) = some gitVersion.toList :=
    Option.filter_some.trans (if_pos (beq_iff_eq.mpr length))
  rw [RouterModule.pingResponse, tells, if_neg Bool.false_ne_true, kept]

/-- A ping is answered, and its answer completes it if it is still in its slot: the admin who asked
for it gets the version of the node. -/
theorem ponged_of_exchange {position : ℕ} {node : Node} {adminTxid : Option (List (BitVec 8))}
    {routerModule after : RouterModule} {request : Request} {first : RouterModule.Chance}
    (sends : pingNode first position node adminTxid routerModule = some (after, request))
    (added : (responder.nodeStore.addNode asking 1 Version.CURRENT_PROTOCOL).nodeStore =
      some store) (erange : Bool) (behind : BitVec 8) :
    ∃ query message index ping,
      SerializationModule.handleIncoming erange behind (DHTMessage.received
          (sendRequest QUERY_PING request.txid none []).contents) = some query ∧
        (∀ fuel, ReplyModule.handleIncoming false fuel responder asking query = some message) ∧
        after.pings index = some ping ∧ ping.txid = adminTxid ∧
        ping.isFromAdmin = adminTxid.isSome ∧
        ∀ erange behind, ∃ dictionary,
          SerializationModule.handleIncoming erange behind
              (DHTMessage.received message.contents) = some dictionary ∧
            senderVersion (SearchReply.ofDict sender dictionary).toReply =
              Version.CURRENT_PROTOCOL ∧
            ∀ chance (now : Searcher), now.routerModule.pings index = some ping →
              Known chance (.ofDict sender dictionary) now →
              ¬ SenderRefused (.ofDict sender dictionary) now.routerModule.nodeStore →
                ∃ replied, handleReply chance (.ofDict sender dictionary) now = .ok replied ∧
                  Ponged index ping responder.gitVersion now replied := by
  rcases Option.map_eq_some_iff.mp sends with ⟨index, -, results⟩
  rw [Prod.mk.injEq] at results
  rcases results with ⟨rfl, rfl⟩
  rcases @RouterModule.asks_of_sendRequest QUERY_PING [0x70, BitVec.ofNat 8 index] none le_rfl
    (by simp) erange behind with ⟨query, read, asks⟩
  rcases ponged_of_asks sender asks (by simp) added with ⟨message, replied, tells⟩
  refine ⟨query, message, index, _, read, replied, Function.update_self .., rfl, rfl,
    fun erange behind => ?_⟩
  rcases tells erange behind with ⟨dictionary, heard, reply_eq⟩
  refine ⟨dictionary, heard, ?_, fun chance now waits known unrefused => ?_⟩
  · rw [reply_eq]
    rfl
  exact ponged_of_reply (by rw [reply_eq]) (by rw [reply_eq]) (by rw [reply_eq]) known unrefused
    waits

omit [AddressCalc] in
/-- A node pings another for an admin, and is told its version. -/
theorem ponged_of_first_exchange : letI := AddressCalc.plain
    ∃ after request query message dictionary index ping replied,
      pingNode quietChance.toChance 1 (usedNode (numbered 4 0x135)).body (some [0x31])
          waiting.routerModule = some (after, request) ∧
        SerializationModule.handleIncoming true 0 (DHTMessage.received
          (sendRequest QUERY_PING request.txid none []).contents) = some query ∧
        (∀ fuel, ReplyModule.handleIncoming false fuel knowing (numbered 0xFF 0x17) query =
          some message) ∧
        SerializationModule.handleIncoming true 0 (DHTMessage.received message.contents) =
          some dictionary ∧
        handleReply quietChance (.ofDict (numbered 4 0x135) dictionary)
          { waiting with routerModule := after } = .ok replied ∧
        ping.txid = some [0x31] ∧ ping.isFromAdmin = true ∧
        Ponged index ping knowing.gitVersion { waiting with routerModule := after } replied := by
  let := AddressCalc.plain
  have sends : (pingNode quietChance.toChance 1 (usedNode (numbered 4 0x135)).body (some [0x31])
      waiting.routerModule).isSome = true := by
    rfl
  have taken : (knowing.nodeStore.addNode (numbered 0xFF 0x17) 1
      Version.CURRENT_PROTOCOL).nodeStore.isSome = true := by
    decide +kernel
  have neighbour : (withNeighbour.getNodeByNetworkAddr 0 0x135).any
      (fun node => node.address.key == (numbered 4 0x135).key) = true := by
    decide +kernel
  have readmitted : (withNeighbour.addNode (numbered 4 0x135) 2
      Version.CURRENT_PROTOCOL).nodeStore.isSome = true := by
    decide +kernel
  rcases Option.isSome_iff_exists.mp sends with ⟨⟨after, request⟩, sent⟩
  rcases Option.isSome_iff_exists.mp taken with ⟨store, added⟩
  rcases (Option.any_eq_true _ _).mp neighbour with ⟨node, present, same⟩
  rcases @ponged_of_exchange _ _ _ (numbered 4 0x135) _ _ _ _ _ _ _ _ sent added true 0 with
    ⟨query, message, index, ping, read, replied, held, txid, admin, tells⟩
  rcases tells true 0 with ⟨dictionary, heard, version, pongs⟩
  have kept : after.nodeStore = withNeighbour := by
    rcases Option.map_eq_some_iff.mp sent with ⟨index, -, results⟩
    rw [← (Prod.mk.inj results).1]
    rfl
  have known : Known quietChance (.ofDict (numbered 4 0x135) dictionary)
      { waiting with routerModule := after } := by
    refine ⟨node, ?_, eq_of_beq same⟩
    dsimp only
    rw [kept]
    exact present
  have unrefused : ¬ SenderRefused (.ofDict (numbered 4 0x135) dictionary) after.nodeStore := by
    rw [SenderRefused, version, kept]
    rintro (unversioned | own | aborted)
    · exact absurd unversioned (by decide)
    · have own : (numbered 4 0x135).resolved.ip6 = withNeighbour.thisNodeAddress.ip6 := own
      exact absurd own (by decide)
    · have aborted : withNeighbour.addNode (numbered 4 0x135) 2 Version.CURRENT_PROTOCOL =
          .aborted := aborted
      rw [aborted] at readmitted
      cases readmitted
  rcases pongs quietChance { waiting with routerModule := after } held known unrefused with
    ⟨result, handles, ponged⟩
  exact ⟨after, request, query, message, dictionary, index, ping, result, sent, read, replied,
    heard, handles, txid, admin, ponged⟩

end Searcher

end Cjdns
