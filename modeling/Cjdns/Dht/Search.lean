import Cjdns.Dht.ClosestNodes
import Cjdns.Dht.Forwarding
import Cjdns.Dht.PingTimeout
import Cjdns.Dht.SearchStore
import Cjdns.Dht.VersionList

/-!
# Searches

`RouterModule_beginSearch` sends the first request of a search, `searchStep` the others,
and both replies and time-outs get to `searchStep`. The count of the requests starts at
zero behind the first one.

The loop of `handleReply` takes what the node tells entry by entry. What an entry is
depends on the reply alone (`hear`); what becomes of it depends on the table (`turn`).
-/

namespace Cjdns

/-- `struct Address`, as `Address_parse` reads it; the key and the path are big endian. -/
def bigEndian (width : ℕ) (bytes : List (BitVec 8)) : BitVec width :=
  bytes.foldl (fun word byte => (word <<< 8) ||| byte.setWidth width) 0

/-- `Address_parse` -/
def Address.parse (input : List (BitVec 8)) : Address :=
  { ip6 := 0, key := bigEndian 256 (input.take 32), path := bigEndian 64 (input.drop 32) }

variable [AddressCalc]

/-- `xorcmp` -/
def xorcmp (target negativeIfCloser positiveIfCloser : BitVec 32) : ℤ :=
  if negativeIfCloser = positiveIfCloser then 0
  else if negativeIfCloser ^^^ target < positiveIfCloser ^^^ target then -1 else 1

/-- `xorCompare`; `ints.one`, which is compared first, is the third quarter of the address. -/
def xorCompare (target negativeIfCloser positiveIfCloser : Address) : ℤ :=
  let part (position : ℕ) : ℤ := xorcmp (target.resolved.ip6.extractLsb' position 32)
    (negativeIfCloser.resolved.ip6.extractLsb' position 32)
    (positiveIfCloser.resolved.ip6.extractLsb' position 32)
  if part 32 ≠ 0 then part 32
  else if part 0 ≠ 0 then part 0
  else if part 96 ≠ 0 then part 96
  else part 64

/-- The router module with its search store -/
structure Searcher where
  routerModule : RouterModule
  searches : SearchStore.Searches

namespace Searcher

open RouterModule (Chance Verdict Completed)
open SearchStore (Search Searches MAX_SEARCHES SEARCH_NODES)

/-- `RouterModule_K` -/
abbrev K : ℕ := 8

abbrev MAX_REQUESTS_PER_SEARCH : ℕ := 8

/-- What a call does for a search -/
inductive SearchOutput where
  | request (address : Address) (txid : List (BitVec 8)) (target : BitVec 128)
  /-- The callback is called with a reply. -/
  | result
  /-- The callback is called with `NULL`. -/
  | finished
deriving DecidableEq

/-- What a call gets from outside, with the number from `Random_uint32` -/
structure SearchChance extends Chance where
  magic : BitVec 32

def withNodeStore (nodeStore : NodeStore) (searcher : Searcher) : Searcher :=
  { searcher with routerModule := { searcher.routerModule with nodeStore := nodeStore } }

def withSearch (slot : Fin MAX_SEARCHES) (search : Option Search) (searcher : Searcher) :
    Searcher :=
  { searcher with searches := Function.update searcher.searches slot search }

/-! ## Asking -/

/-- The end of a search: the callback is called, and `freeSearch` empties the slot. -/
def endSearch (slot : Fin MAX_SEARCHES) (search : Search) (searcher : Searcher) :
    Searcher × List SearchOutput :=
  (searcher.withSearch slot none,
    if search.callbackContext.hasCallback then [.finished] else [])

/-- There might be a much better path to the same node in the table. -/
def betterPath (address : Address) (store : NodeStore) : Address :=
  match store.getBest address with
  | none => address
  | some n =>
      if n.address.ip6 = address.ip6 ∧ n.address.path < address.path then
        { address with path := n.address.path }
      else address

/-- `searchStep` -/
def searchStep (chance : SearchChance) (slot : Fin MAX_SEARCHES) (search : Search)
    (searcher : Searcher) : Searcher × List SearchOutput :=
  match SearchStore.getNextNode slot chance.now chance.magic search with
  | none => searcher.endSearch slot search
  | some (position, next) =>
      if search.callbackContext.totalRequests ≥ MAX_REQUESTS_PER_SEARCH then
        searcher.endSearch slot search
      else
        let nextSearchNode := next.nodesAsked position
        let address := betterPath nextSearchNode.address.resolved searcher.routerModule.nodeStore
        (searcher.withSearch slot (some
          { next with
            nodesAsked :=
              Function.update next.nodesAsked position { nextSearchNode with address := address }
            callbackContext :=
              { next.callbackContext with
                totalRequests := next.callbackContext.totalRequests + 1
                lastNodeCalled := position } }),
          [.request address (nextSearchNode.txid.getD []) next.callbackContext.targetAddress.ip6])

/-- The position that `NodeStore_getNodeByNetworkAddr` comes to -/
def positionByNetworkAddr (rand : ℕ) (path : BitVec 64) (store : NodeStore) : Option ℕ :=
  if path = 0 then if store.size > 0 then some (rand % store.size) else none
  else store.entries.findIdx? fun entry => entry.body.address.path == path

/-- The part of `searchRequestTimeout` that lowers the reach -/
def punishSearched (rand : ℕ) (path : BitVec 64) (store : NodeStore) : NodeStore :=
  match positionByNetworkAddr rand path store, store.getNodeByNetworkAddr rand path with
  | some position, some n =>
      let newReach := RouterModule.reachAfterTimeout n.reach
      -- a node that is directly connected is pinged at the switch level
      let newReach := if newReach = 0 ∧ LabelSplicer.isOneHop n.address.path then 1 else newReach
      store.updateReach position newReach
  | _, _ => store

/-- `searchRequestTimeout` -/
def searchRequestTimeout (chance : SearchChance) (slot : Fin MAX_SEARCHES) (search : Search)
    (searcher : Searcher) : Searcher × List SearchOutput :=
  let lastNodeCalled := search.nodesAsked search.callbackContext.lastNodeCalled
  let nodeStore :=
    punishSearched chance.rand lastNodeCalled.address.path searcher.routerModule.nodeStore
  (searcher.withNodeStore nodeStore).searchStep chance slot search

/-- `RouterModule_beginSearch`, for a target whose key and path are not initialized; no result
where there is no slot or no node. -/
def beginSearch (chance : SearchChance) (id : ℕ) (target : Address) (hasCallback : Bool)
    (searcher : Searcher) : Checked (Option (Searcher × List SearchOutput)) :=
  match SearchStore.freeSlot searcher.searches with
  | none => .ok none
  | some slot =>
      let nodes := searcher.routerModule.nodeStore.getClosestNodes target none K true
        Version.CURRENT_PROTOCOL
      if nodes.isEmpty then .ok none
      else
        let newSearch : Search :=
          { id := id
            searchStack := []
            nodesAskedIndex := 0
            nodesAsked := fun _ => SearchStore.SearchNode.unused
            callbackContext :=
              { hasCallback := hasCallback
                totalRequests := 0
                targetAddress := target.resolved
                lastNodeCalled := 0 } }
        let search := nodes.foldl
          (fun search node => (SearchStore.addNodeToSearch node.address search).getD search)
          newSearch
        match SearchStore.getNextNode slot chance.now chance.magic search with
        | none => .error .nullPointer
        | some (position, first) =>
            let firstSearchNode := first.nodesAsked position
            .ok (some (searcher.withSearch slot (some
                { first with
                  callbackContext := { first.callbackContext with lastNodeCalled := position } }),
              [.request firstSearchNode.address (firstSearchNode.txid.getD [])
                target.resolved.ip6]))

/-! ## Taking a reply -/

/-- A reply, with what the search reads of it besides -/
structure SearchReply extends RouterModule.Reply where
  /-- `CJDHTConstants_NODE_PROTOCOLS` -/
  nodeProtocols : Option (List (BitVec 8))

/-- `Address_SERIALIZED_SIZE` -/
abbrev SERIALIZED_SIZE : ℕ := 40

/-- `Address_KEY_SIZE` -/
abbrev KEY_SIZE : ℕ := 32

/-- The loop of `isDuplicateEntry` -/
def duplicateLoop (nodes : List (BitVec 8)) (index : ℕ) : ℕ → ℕ → Checked Bool
  | 0, _ => .ok false
  | rounds + 1, i =>
      if i < nodes.length then
        if i = index then duplicateLoop nodes index rounds (i + SERIALIZED_SIZE)
        else
          Checked.readAt nodes index KEY_SIZE >>= fun mine =>
            Checked.readAt nodes i KEY_SIZE >>= fun other =>
              if mine = other then .ok true
              else duplicateLoop nodes index rounds (i + SERIALIZED_SIZE)
      else .ok false

/-- `isDuplicateEntry` -/
def isDuplicateEntry (nodes : List (BitVec 8)) (index : ℕ) : Checked Bool :=
  duplicateLoop nodes index (nodes.length / SERIALIZED_SIZE + 1) index

/-- What the loop of `handleReply` makes of an entry before it turns to the table -/
inductive Heard where
  /-- A duplicate, or a route that cannot be spliced -/
  | skipped
  /-- Our own key -/
  | looped (path : BitVec 64)
  | garbage
  | told (addr : Address)

/-- The entry at an offset, as the sender means it -/
def hear (own sender : Address) (nodes : List (BitVec 8)) (i : ℕ) : Checked Heard :=
  isDuplicateEntry nodes i >>= fun duplicate =>
    if duplicate then .ok .skipped
    else
      Checked.readAt nodes i SERIALIZED_SIZE >>= fun input =>
        let addr := Address.parse input
        if own.isSameIp addr then .ok (.looped addr.path)
        else
          let addr := { addr with path := LabelSplicer.splice addr.path sender.path }
          if addr.path = BitVec.allOnes 64 then .ok .skipped
          else
            let addr := addr.resolved
            if AddressCalc.validAddress addr.ip6 then .ok (.told addr) else .ok .garbage

/-- What stays the same in the loop of `handleReply` -/
structure Reading where
  own : Address
  /-- The sender of the reply -/
  sender : Address
  /-- The node as it was asked -/
  parent : Address
  target : Address
  nodes : List (BitVec 8)
  versions : Option (List (BitVec 32))

/-- The state of the loop of `handleReply` -/
structure Absorbed where
  nodeStore : NodeStore
  search : Search
  /-- What has been added to the search, the last one first -/
  added : List Address

/-- The answer was further from the target than us. -/
def isNoise (reading : Reading) (addr : Address) : Bool :=
  let parentDistance := reading.parent.getPrefix ^^^ reading.target.getPrefix
  decide (addr.getPrefix ^^^ reading.target.getPrefix ≥ parentDistance) &&
    decide (xorCompare reading.target addr reading.parent ≥ 0)

/-- The version of the node at an offset; 1 is assumed if there is no list. -/
def versionAt (reading : Reading) (i : ℕ) : Checked (BitVec 32) :=
  match reading.versions with
  | none => .ok 1
  | some versions => Checked.elementAt versions (i / SERIALIZED_SIZE)

/-- Nodes we are told about are inserted with 0 reach. -/
def insertTold (addr : Address) (version : BitVec 32) (store : NodeStore) : Checked NodeStore :=
  match store.addNode addr 0 version with
  | .node _ after => .ok after
  | .null after => .ok after
  | .aborted => .error .assertion

/-- What `handleReply` adds to the search for a node that it was told -/
def candidate (addr : Address) (store : NodeStore) : Address :=
  match store.getBest addr with
  | none => addr
  | some n => n.address

/-- The end of a turn for a node that is in the table now -/
def consider (reading : Reading) (addr : Address) (nodeStore : NodeStore) (state : Absorbed) :
    Absorbed :=
  if isNoise reading addr then { state with nodeStore := nodeStore }
  else
    match SearchStore.addNodeToSearch (candidate addr nodeStore) state.search with
    | none => { state with nodeStore := nodeStore }
    | some search =>
        { nodeStore := nodeStore
          search := search
          added := candidate addr nodeStore :: state.added }

/-- A turn of the loop of `handleReply`; no result where the loop is left. -/
def turn (reading : Reading) (i : ℕ) (state : Absorbed) : Checked (Option Absorbed) :=
  hear reading.own reading.sender reading.nodes i >>= fun
    | .skipped => .ok (some state)
    | .looped path =>
        .ok (some { state with nodeStore := (state.nodeStore.brokenPath path).2 })
    | .garbage => .ok none
    | .told addr =>
        versionAt reading i >>= fun version =>
          insertTold addr version state.nodeStore >>= fun nodeStore =>
            .ok (some (consider reading addr nodeStore state))

/-- The loop of `handleReply` -/
def absorbLoop (reading : Reading) : ℕ → ℕ → Absorbed → Checked Absorbed
  | 0, _, state => .ok state
  | rounds + 1, i, state =>
      if i < reading.nodes.length then
        turn reading i state >>= fun
          | none => .ok state
          | some state => absorbLoop reading rounds (i + SERIALIZED_SIZE) state
      else .ok state

/-- The list of the versions; version 1 lies about the versions of other nodes. -/
def versionsOf (version : BitVec 32) (reply : SearchReply) :
    Checked (Option (List (BitVec 32))) :=
  match reply.nodeProtocols with
  | none => .ok none
  | some versionsStr =>
      VersionList.parse versionsStr >>= fun parsed =>
        let versions := parsed.map (·.versions)
        if version < 2 then
          Checked.deref versions >>= fun versions => .ok (some (versions.map fun _ => 1))
        else .ok versions

/-- What `handleReply` leaves behind -/
structure Replied where
  searcher : Searcher
  verdict : Verdict
  completed : Option Completed
  /-- What was done for which search -/
  advanced : Option (ℕ × List SearchOutput)

def Replied.plain (searcher : Searcher) (verdict : Verdict) : Replied :=
  { searcher := searcher, verdict := verdict, completed := none, advanced := none }

/-- The version that a reply gives for its sender -/
def senderVersion (reply : RouterModule.Reply) : BitVec 32 :=
  (reply.protocol.map (·.setWidth 32)).getD 0

/-- What the loop of `handleReply` reads -/
def readingOf (reply : SearchReply) (asked : SearchStore.Asked) (store : NodeStore)
    (nodes : List (BitVec 8)) (versions : Option (List (BitVec 32))) : Reading :=
  { own := store.thisNodeAddress
    sender := reply.address
    parent := asked.node.address
    target := asked.search.callbackContext.targetAddress
    nodes := nodes
    versions := versions }

/-- The nodes of a reply are put into the table and on the stack of the search. -/
def absorbReply (reply : SearchReply) (asked : SearchStore.Asked) (nodes : List (BitVec 8))
    (store : NodeStore) : Checked Absorbed :=
  versionsOf (senderVersion reply.toReply) reply >>= fun versions =>
    absorbLoop (readingOf reply asked store nodes versions)
      (nodes.length / SERIALIZED_SIZE + 1) 0
      { nodeStore := store, search := asked.search, added := [] }

/-- The search goes on after a reply. -/
def proceed (chance : SearchChance) (asked : SearchStore.Asked) (results : List SearchOutput)
    (search : Search) (searcher : Searcher) : Replied :=
  let stepped := searcher.searchStep chance asked.slot search
  { searcher := stepped.1
    verdict := .passed
    completed := none
    advanced := some (search.id, results ++ stepped.2) }

/-- The part of `handleReply` for a reply that the search expects -/
def handleExpected (chance : SearchChance) (reply : SearchReply) (node : ℕ)
    (asked : SearchStore.Asked) (searcher : Searcher) : Checked Replied :=
  let delay := (chance.now - asked.node.timeOfRequest).setWidth 32
  let nodeStore := RouterModule.responseFromNode chance.toChance node delay
    searcher.routerModule.nodeStore
  match reply.nodes with
  | none => .ok ((searcher.withNodeStore nodeStore).proceed chance asked [] asked.search)
  | some nodes =>
      absorbReply reply asked nodes nodeStore >>= fun absorbed =>
        .ok ((searcher.withNodeStore absorbed.nodeStore).proceed chance asked
          (if asked.search.callbackContext.hasCallback then [.result] else []) absorbed.search)

/-- The part of `handleReply` after the pongs -/
def handleSearchReply (chance : SearchChance) (reply : SearchReply) (node : ℕ)
    (searcher : Searcher) : Checked Replied :=
  match reply.txid.bind fun tid => SearchStore.getNode tid searcher.searches with
  | none => .ok (.plain searcher .stopped)
  | some asked =>
      -- the slot or the place in it may have got another user since the request
      if asked.node.address.isSameIp reply.address then
        handleExpected chance reply node asked searcher
      else .ok (.plain searcher .stopped)

/-- `handleReply` -/
def handleReply (chance : SearchChance) (reply : SearchReply) (searcher : Searcher) :
    Checked Replied :=
  match searcher.routerModule.nodeStore.getNodeByNetworkAddr chance.rand reply.address.path with
  | none => .ok (.plain searcher .passed)
  | some node =>
      if node.address.key ≠ reply.address.key then .ok (.plain searcher .passed)
      else
        match searcher.routerModule.nodeStore.addNode reply.address 2
            (senderVersion reply.toReply) with
        | .null _ | .aborted => .error .assertion
        | .node added nodeStore =>
            let handled := RouterModule.handleTid chance.toChance reply.toReply added
              { searcher.routerModule with nodeStore := nodeStore }
            let searcher := { searcher with routerModule := handled.routerModule }
            if handled.verdict = .toSearch then handleSearchReply chance reply added searcher
            else
              .ok { searcher := searcher
                    verdict := handled.verdict
                    completed := handled.completed
                    advanced := none }

end Searcher

end Cjdns
