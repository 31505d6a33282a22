import Cjdns.Dht.Address

/-!
# The search store

A search keeps a stack of the nodes that are still to be asked and an array of those that
have been asked. A request carries the place of the node in that array as its transaction
id, with a random number, and a reply is matched with the whole id.
-/

namespace Cjdns

namespace SearchStore

/-- `SearchStore_MAX_SEARCHES` -/
abbrev MAX_SEARCHES : ℕ := 8

/-- `SearchStore_SEARCH_NODES` -/
abbrev SEARCH_NODES : ℕ := 256

instance : NeZero SEARCH_NODES :=
  ⟨by decide⟩

/-- `struct SearchStore_NodeIndex` -/
structure NodeIndex where
  search : BitVec 16
  node : BitVec 16
  magic : BitVec 32

/-- The bytes of a `NodeIndex` in memory; the host is little endian. -/
def NodeIndex.bytes (index : NodeIndex) : List (BitVec 8) :=
  [index.search.extractLsb' 0 8, index.search.extractLsb' 8 8,
    index.node.extractLsb' 0 8, index.node.extractLsb' 8 8,
    index.magic.extractLsb' 0 8, index.magic.extractLsb' 8 8,
    index.magic.extractLsb' 16 8, index.magic.extractLsb' 24 8]

/-- A `NodeIndex` out of memory; a text of another length is none. -/
def NodeIndex.ofBytes : List (BitVec 8) → Option NodeIndex
  | [s0, s1, n0, n1, m0, m1, m2, m3] =>
      some { search := s1 ++ s0, node := n1 ++ n0, magic := m3 ++ m2 ++ m1 ++ m0 }
  | _ => none

/-- `struct SearchStore_Node`; the search that it points to is the one that holds it. -/
structure SearchNode where
  timeOfRequest : BitVec 64
  txid : Option (List (BitVec 8))
  address : Address

/-- An element of `nodesAsked` in a new search -/
def SearchNode.unused : SearchNode :=
  { timeOfRequest := 0, txid := none, address := { ip6 := 0, key := 0, path := 0 } }

/-- `struct SearchCallbackContext` -/
structure SearchCallbackContext where
  /-- `resultCallback` is not `NULL`. -/
  hasCallback : Bool
  totalRequests : ℕ
  targetAddress : Address
  /-- A position of `nodesAsked` -/
  lastNodeCalled : Fin SEARCH_NODES

/-- `struct SearchStore_Search_pvt`, with the number of the search, which the program does not
keep, and the context that `RouterModule_beginSearch` gives it. -/
structure Search where
  id : ℕ
  /-- From the top; the size is the length. -/
  searchStack : List Address
  nodesAskedIndex : Fin SEARCH_NODES
  nodesAsked : Fin SEARCH_NODES → SearchNode
  callbackContext : SearchCallbackContext

/-- The slots of `struct SearchStore` -/
abbrev Searches := Fin MAX_SEARCHES → Option Search

/-- The slot that `SearchStore_newSearch` takes -/
def freeSlot (searches : Searches) : Option (Fin MAX_SEARCHES) :=
  (List.finRange MAX_SEARCHES).find? fun slot => (searches slot).isNone

/-- A node that has been asked, with its search and the slot of the search -/
structure Asked where
  slot : Fin MAX_SEARCHES
  search : Search
  node : SearchNode

/-- `SearchStore_getNode` -/
def getNode (txid : List (BitVec 8)) (searches : Searches) : Option Asked :=
  (NodeIndex.ofBytes txid).bind fun index =>
    if inside : index.search.toNat < MAX_SEARCHES ∧ index.node.toNat < SEARCH_NODES then
      (searches ⟨index.search.toNat, inside.1⟩).bind fun search =>
        let node := search.nodesAsked ⟨index.node.toNat, inside.2⟩
        if node.txid = some txid then
          some { slot := ⟨index.search.toNat, inside.1⟩, search := search, node := node }
        else none
    else none

/-- The loop of `SearchStore_addNodeToSearch`: the node has been asked. -/
def alreadyAsked (addr : Address) (search : Search) : List (Fin SEARCH_NODES) → Bool
  | [] => false
  | i :: rest =>
      if addr.key = (search.nodesAsked i).address.key then true
      else if i = search.nodesAskedIndex ∧ (search.nodesAsked i).address.key = 0 then
        -- the index has not yet wrapped
        false
      else alreadyAsked addr search rest

/-- `SearchStore_addNodeToSearch`; no result where the node has been asked. -/
def addNodeToSearch (addr : Address) (search : Search) : Option Search :=
  if alreadyAsked addr search (List.finRange SEARCH_NODES) then none
  else if search.searchStack.length < SEARCH_NODES then
    some { search with searchStack := addr :: search.searchStack }
  else
    -- nodes are added worst-to-best so replace the last entry
    some { search with searchStack := addr :: search.searchStack.tail }

/-- `SearchStore_getNextNode`, with the position of the node in `nodesAsked` -/
def getNextNode (slot : Fin MAX_SEARCHES) (now : BitVec 64) (magic : BitVec 32)
    (search : Search) : Option (Fin SEARCH_NODES × Search) :=
  match search.searchStack with
  | [] => none
  | address :: rest =>
      let index : NodeIndex :=
        { search := BitVec.ofNat 16 slot
          node := BitVec.ofNat 16 search.nodesAskedIndex
          magic := magic }
      some (search.nodesAskedIndex,
        { search with
          searchStack := rest
          nodesAsked := Function.update search.nodesAsked search.nodesAskedIndex
            { timeOfRequest := now, txid := some index.bytes, address := address }
          nodesAskedIndex := search.nodesAskedIndex + 1 })

/-! ## Transaction ids -/

@[simp]
theorem NodeIndex.ofBytes_bytes (index : NodeIndex) : ofBytes index.bytes = some index := by
  have join16 (word : BitVec 16) : word.extractLsb' 8 8 ++ word.extractLsb' 0 8 = word := by
    apply BitVec.eq_of_getLsbD_eq
    intro position inside
    simp only [BitVec.getLsbD_append, BitVec.getLsbD_extractLsb']
    interval_cases position <;> simp
  have join32 (word : BitVec 32) : word.extractLsb' 24 8 ++ word.extractLsb' 16 8 ++
      word.extractLsb' 8 8 ++ word.extractLsb' 0 8 = word := by
    apply BitVec.eq_of_getLsbD_eq
    intro position inside
    simp only [BitVec.getLsbD_append, BitVec.getLsbD_extractLsb']
    interval_cases position <;> simp
  simp only [ofBytes, bytes, join16, join32]

/-- A node that is found has the transaction id, and its search is in the slot. -/
theorem getNode_eq_some {txid : List (BitVec 8)} {searches : Searches} {asked : Asked}
    (found : getNode txid searches = some asked) :
    searches asked.slot = some asked.search ∧ asked.node.txid = some txid ∧
      ∃ position, asked.search.nodesAsked position = asked.node := by
  rcases Option.bind_eq_some_iff.mp found with ⟨index, _, found⟩
  split_ifs at found with inside
  rcases Option.bind_eq_some_iff.mp found with ⟨search, occupied, found⟩
  rw [Option.ite_none_right_eq_some, Option.some.injEq] at found
  rcases found with ⟨same, rfl⟩
  exact ⟨occupied, same, _, rfl⟩

end SearchStore

end Cjdns
