import Cjdns.Dht.Address

/-!
# The node store

The table of `NodeStore.c` is a pair of arrays, of headers and of nodes, filled up to
its size. An entry is one position of both. `replaceNode` is the only function that
writes an address, and it writes the prefix and the interface of that address into
the header, so that an entry in which they differ is never built.

A pointer into the arrays is the position it points to. The assertion that is compiled
into `NodeStore_addNode` for debugging, that an address is the one of its key, is left
out.
-/

namespace Cjdns

variable [AddressCalc]

/-- `struct NodeHeader` -/
structure NodeHeader where
  addressPrefix : BitVec 32
  reach : BitVec 32
  switchIndex : ℕ
  version : BitVec 32

/-- `struct Node` -/
structure Node where
  reach : BitVec 32
  version : BitVec 32
  address : Address

/-- A position of both arrays below the size -/
structure Entry where
  header : NodeHeader
  body : Node
  resolved_eq : body.address.resolved = body.address
  addressPrefix_eq : header.addressPrefix = body.address.getPrefix
  switchIndex_eq : header.switchIndex = getSwitchIndex body.address

namespace Entry

def withReach (entry : Entry) (reach : BitVec 32) : Entry :=
  { entry with header := { entry.header with reach := reach } }

def withVersion (entry : Entry) (version : BitVec 32) : Entry :=
  { entry with header := { entry.header with version := version } }

/-- What `nodeForIndex` makes of the position: the node gets the values of its header. A
function that only looks a node up returns the node so, and the table keeps the old values
until the next such call; no comparison reads them there. -/
def synchronized (entry : Entry) : Entry :=
  { entry with
    body := { entry.body with reach := entry.header.reach, version := entry.header.version } }

/-- What `replaceNode` leaves in a position; reach and version of the node are not written. -/
def replaceNode (nodeToReplace : Node) (addr : Address) : Entry where
  header :=
    { addressPrefix := addr.getPrefix
      reach := 0
      version := 0
      switchIndex := getSwitchIndex addr }
  body := { nodeToReplace with address := addr.resolved }
  resolved_eq := Address.resolved_resolved addr
  addressPrefix_eq := by simp [Address.getPrefix]
  switchIndex_eq := by simp [getSwitchIndex]

end Entry

/-- `struct NodeStore`; the size is the number of entries. -/
structure NodeStore where
  thisNodeAddress : Address
  capacity : ℕ
  entries : List Entry
  /-- The sum of the logarithms of all labels, an `int32_t` -/
  labelSum : BitVec 32

/-- `INT32_MAX` -/
abbrev INT32_MAX : ℤ := 2147483647

/-- `adjustReach` -/
def Entry.adjustReach (entry : Entry) (reachDiff : ℤ) : Entry :=
  if reachDiff = 0 then entry
  else
    let newReach := reachDiff + entry.header.reach.toNat
    if newReach ≤ 0 then entry.withReach 0
    else if newReach > INT32_MAX then entry.withReach (BitVec.ofInt 32 INT32_MAX)
    else entry.withReach (BitVec.ofInt 32 newReach)

namespace NodeStore

/-- `NodeStore_size` -/
def size (store : NodeStore) : ℕ :=
  store.entries.length

/-- `NodeStore_remove`: the last entry moves into the place of the one that goes. -/
def remove (index : ℕ) (store : NodeStore) : NodeStore :=
  match store.entries.getLast? with
  | none => store
  | some last => { store with entries := (store.entries.set index last).dropLast }

/-- The loop of `NodeStore_brokenPath`, from the last entry to the first -/
def brokenPathLoop (path : BitVec 64) : ℕ → ℕ → NodeStore → ℕ × NodeStore
  | 0, out, store => (out, store)
  | i + 1, out, store =>
      match store.entries[i]? with
      | none => brokenPathLoop path i out store
      | some entry =>
          if LabelSplicer.routesThrough entry.body.address.path path then
            if !LabelSplicer.isOneHop entry.body.address.path then
              brokenPathLoop path i (out + 1) (store.remove i)
            else
              brokenPathLoop path i out
                { store with entries := store.entries.set i (entry.withReach 0) }
          else brokenPathLoop path i out store

/-- `NodeStore_brokenPath`, with the number of entries that it has removed -/
def brokenPath (path : BitVec 64) (store : NodeStore) : ℕ × NodeStore :=
  brokenPathLoop path store.size 0 store

/-- What `NodeStore_addNode` comes to; a pointer is a position. -/
inductive Added where
  | node (index : ℕ) (store : NodeStore)
  | null (store : NodeStore)
  /-- An assertion fails. -/
  | aborted

/-- Write an entry for an address with `replaceNode`, and then its reach and its version.
A position past the size holds a node with path 0. -/
def putEntry (index : ℕ) (addr : Address) (finish : Entry → Entry) (store : NodeStore) : Added :=
  let nodeToReplace : Node :=
    (store.entries[index]?.map (·.body)).getD
      { reach := 0, version := 0, address := { ip6 := 0, key := 0, path := 0 } }
  let labelSum := store.labelSum - BitVec.ofNat 32 (Bits.log2x64 nodeToReplace.address.path) +
    BitVec.ofNat 32 (Bits.log2x64 addr.path)
  if labelSum.toInt > 0 then
    let entry := (finish (Entry.replaceNode nodeToReplace addr)).synchronized
    .node index
      { store with
        entries :=
          if index < store.entries.length then store.entries.set index entry
          else store.entries ++ [entry]
        labelSum := labelSum }
  else .aborted

/-- The end of `NodeStore_addNode`, where the address is in no entry -/
def insert (worstNode : ℕ) (addr : Address) (reachDifference : ℤ) (version : BitVec 32)
    (store : NodeStore) : Added :=
  if store.entries.any fun entry =>
      entry.body.address.ip6 == addr.ip6 && entry.body.address.path == addr.path then .aborted
  else
    let insertionIndex := if store.size ≥ store.capacity then worstNode else store.size
    putEntry insertionIndex addr
      (fun entry => (entry.adjustReach reachDifference).withVersion version) store

/-- The entry gets the new version and a part of the reach, and it is returned. -/
def refresh (index : ℕ) (entry : Entry) (reachDifference : ℤ) (version : BitVec 32)
    (store : NodeStore) : Added :=
  .node index
    { store with
      entries := store.entries.set index
        ((entry.adjustReach reachDifference).withVersion version).synchronized }

/-- The loop of `NodeStore_addNode`. It ends because each turn takes the index or the size one
step nearer to the other. -/
def addNodeLoop (addr : Address) (reachDifference : ℤ) (version : BitVec 32) :
    ℕ → ℕ → ℕ → BitVec 64 → NodeStore → Added
  | 0, _, worstNode, _, store => insert worstNode addr reachDifference version store
  | rounds + 1, i, worstNode, worstPath, store =>
      match store.entries[i]? with
      | none => insert worstNode addr reachDifference version store
      | some entry =>
          let path := entry.body.address.path
          if entry.header.addressPrefix = addr.getPrefix ∧ entry.body.address.isSameIp addr then
            if path = addr.path then refresh i entry reachDifference version store
            else if LabelSplicer.routesThrough path addr.path then
              -- a better route; if we just change the path, we get duplicates
              addNodeLoop addr reachDifference version rounds i worstNode worstPath
                (store.remove i)
            else if !LabelSplicer.routesThrough addr.path path then
              addNodeLoop addr reachDifference version rounds (i + 1) worstNode worstPath store
            else refresh i entry reachDifference version store
          else if path = addr.path then
            if reachDifference > 0 then
              putEntry i addr
                (fun entry => (entry.withReach (BitVec.ofInt 32 reachDifference)).withVersion
                  version) store
            else .null store
          else
            let worse := decide (store.size ≥ store.capacity) && decide (path > worstPath)
            addNodeLoop addr reachDifference version rounds (i + 1)
              (if worse then i else worstNode) (if worse then path else worstPath) store

/-- `NodeStore_addNode` -/
def addNode (addr : Address) (reachDifference : ℤ) (version : BitVec 32) (store : NodeStore) :
    Added :=
  if !Version.isCompatible Version.CURRENT_PROTOCOL version then .null store
  else
    let addr := addr.resolved
    if addr.ip6 = store.thisNodeAddress.ip6 then .null store
    else if !AddressCalc.validAddress addr.ip6 then .aborted
    else addNodeLoop addr reachDifference version store.size 0 0 0 store

/-- `NodeStore_getNodeByNetworkAddr`; for the path 0 it is a random node as it stands, else
one that is `synchronized`, with the table left as it is. -/
def getNodeByNetworkAddr (rand : ℕ) (path : BitVec 64) (store : NodeStore) : Option Node :=
  if path = 0 then (store.entries[rand % store.size]?).map (·.body)
  else (store.entries.find? fun entry => entry.body.address.path == path).map
    (·.synchronized.body)

/-- The reach that `NodeStore_updateReach` leaves in one entry -/
def reachOf (path : BitVec 64) (reach : BitVec 32) (entry : Entry) : Entry :=
  let dest := entry.body.address.path
  if LabelSplicer.routesThrough dest path then
    if entry.header.reach > reach then entry.withReach reach else entry
  else if LabelSplicer.routesThrough path dest then
    -- an entry without reach may be a stale one, it is left alone
    if entry.header.reach < reach ∧ entry.header.reach ≠ 0 then entry.withReach reach else entry
  else entry

/-- `NodeStore_updateReach`, with the reach that is written to the node -/
def updateReach (index : ℕ) (reach : BitVec 32) (store : NodeStore) : NodeStore :=
  match store.entries[index]? with
  | none => store
  | some entry =>
      let written := { entry with body := { entry.body with reach := reach } }.withReach reach
      { store with
        entries := (store.entries.set index written).map (reachOf entry.body.address.path reach) }

end NodeStore

end Cjdns
