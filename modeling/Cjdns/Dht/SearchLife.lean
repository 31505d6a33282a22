import Cjdns.Dht.ReplySafety

/-!
# The life of a search

A search is begun, goes on with replies and time-outs in any order, and ends. What is done for it is
its history. The first request is not counted, so that a search which does not run out of nodes
sends one more than `MAX_REQUESTS_PER_SEARCH`.
-/

namespace Cjdns

variable [AddressCalc]

namespace Searcher

open SearchStore (Search Searches Asked NodeIndex MAX_SEARCHES SEARCH_NODES)
open RouterModule (Verdict)

/-! ## Runs -/

/-- The router module with the histories of its searches, which have numbers -/
structure Life where
  searcher : Searcher
  /-- For each search that has been begun, whether it has a callback -/
  begun : List Bool
  history : ℕ → List SearchOutput

inductive Occurrence where
  /-- `RouterModule_beginSearch` -/
  | begin (chance : SearchChance) (target : Address) (hasCallback : Bool)
  | reply (chance : SearchChance) (reply : SearchReply)
  /-- The timer of the search in a slot -/
  | timeout (chance : SearchChance) (slot : Fin MAX_SEARCHES)
  /-- What else is done to the table and the pings -/
  | meanwhile (routerModule : RouterModule)

namespace Life

def record (id : ℕ) (outputs : List SearchOutput) (life : Life) : Life :=
  { life with history := Function.update life.history id (life.history id ++ outputs) }

/-- A step; there is no result where the program is stopped. -/
def step (life : Life) : Occurrence → Option Life
  | .begin chance target hasCallback =>
      match life.searcher.beginSearch chance life.begun.length target hasCallback with
      | .error _ => none
      | .ok none => some life
      | .ok (some (searcher, outputs)) =>
          some (record life.begun.length outputs
            { life with searcher := searcher, begun := life.begun ++ [hasCallback] })
  | .reply chance reply =>
      match handleReply chance reply life.searcher with
      | .error _ => none
      | .ok replied =>
          match replied.advanced with
          | none => some { life with searcher := replied.searcher }
          | some (id, outputs) => some (record id outputs { life with searcher := replied.searcher })
  | .timeout chance slot =>
      match life.searcher.searches slot with
      | none => none
      | some search =>
          let result := life.searcher.searchRequestTimeout chance slot search
          some (record search.id result.2 { life with searcher := result.1 })
  | .meanwhile routerModule =>
      some { life with searcher := { life.searcher with routerModule := routerModule } }

end Life

/-- The router module with its searches, from the start -/
def lives : TransitionSystem Life Occurrence where
  initial life := (∀ slot, life.searcher.searches slot = none) ∧ life.begun = [] ∧
    ∀ id, life.history id = []
  step before event after := before.step event = some after

/-- The transaction id of a request -/
def SearchOutput.txid : SearchOutput → Option (List (BitVec 8))
  | .request _ txid _ => some txid
  | .result => none
  | .finished => none

def txids (outputs : List SearchOutput) : List (List (BitVec 8)) :=
  outputs.filterMap SearchOutput.txid

/-! ## What a search may do -/

/-- No slot has the search any more. -/
def Freed (life : Life) (id : ℕ) : Prop :=
  ∀ slot search, life.searcher.searches slot = some search → search.id ≠ id

/-- A search that goes on: it has a slot, and the callback has not been called with `NULL`. -/
def Running (life : Life) (id : ℕ) : Prop :=
  .finished ∉ life.history id ∧
    ∃ slot search, life.searcher.searches slot = some search ∧ search.id = id

/-- A search that has ended: its slot is free, the callback has been called with `NULL` at the end
and not before, and no reply with one of its transaction ids comes to any search. -/
structure Over (life : Life) (hasCallback : Bool) (id : ℕ) : Prop where
  freed : Freed life id
  once : ∃ earlier, life.history id = earlier ++ (if hasCallback then [.finished] else []) ∧
    .finished ∉ earlier
  ignored : ∀ txid ∈ txids (life.history id), ∀ chance reply replied, reply.txid = some txid →
    handleReply chance reply life.searcher = .ok replied →
      replied.advanced = none ∧ replied.searcher.searches = life.searcher.searches

/-- Each search that has been begun has sent a limited number of requests, and goes on or is over;
for one that is over, nothing more is done in any step. -/
def LifeCycle (life : Life) : Prop :=
  ∀ id hasCallback, life.begun[id]? = some hasCallback →
    (txids (life.history id)).length ≤ MAX_REQUESTS_PER_SEARCH ∧
      (Running life id ∨ Over life hasCallback id ∧
        ∀ event after, life.step event = some after →
          after.history id = life.history id ∧ Freed after id)

/-! ## Which search is stepped -/

/-- The new search of `RouterModule_beginSearch` -/
def newSearch (id : ℕ) (target : Address) (hasCallback : Bool) : Search where
  id := id
  searchStack := []
  nodesAskedIndex := 0
  nodesAsked := fun _ => SearchStore.SearchNode.unused
  callbackContext :=
    { hasCallback := hasCallback
      totalRequests := 0
      targetAddress := target.resolved
      lastNodeCalled := 0 }

/-- A new search with the closest nodes on its stack -/
def stocked (id : ℕ) (target : Address) (hasCallback : Bool) (store : NodeStore) : Search :=
  (store.getClosestNodes target none K true Version.CURRENT_PROTOCOL).foldl
    (fun search node => (SearchStore.addNodeToSearch node.address search).getD search)
    (newSearch id target hasCallback)

/-- A reply comes to a search, on the table as it is when its nodes are looked at. -/
structure Delivered (chance : SearchChance) (reply : SearchReply) (searcher : Searcher)
    (asked : Asked) (nodeStore : NodeStore) : Prop where
  known : Known chance reply searcher
  found : (reply.txid.bind fun tid => SearchStore.getNode tid searcher.searches) = some asked
  sender : asked.node.address.isSameIp reply.address = true
  nodeStore_eq : ∃ added after,
    searcher.routerModule.nodeStore.addNode reply.address 2 (senderVersion reply.toReply) =
      .node added after ∧
    nodeStore = RouterModule.responseFromNode chance.toChance added
      ((chance.now - asked.node.timeOfRequest).setWidth 32) after

/-- A search as it goes on with a reply -/
inductive Brings (reply : SearchReply) (asked : Asked) (nodeStore : NodeStore) : Search → Prop where
  | nothing (gives : reply.nodes = none) : Brings reply asked nodeStore asked.search
  | nodes {nodes : List (BitVec 8)} {absorbed : Absorbed} (gives : reply.nodes = some nodes)
      (absorbs : absorbReply reply asked nodes nodeStore = .ok absorbed) :
      Brings reply asked nodeStore absorbed.search

/-- The search in a slot is asked for its next node, with a random number for the request. -/
inductive Steps (life : Life) : Occurrence → Fin MAX_SEARCHES → BitVec 32 → Search → Prop where
  | begin {chance : SearchChance} {target : Address} {hasCallback : Bool} {slot : Fin MAX_SEARCHES}
      (free : SearchStore.freeSlot life.searcher.searches = some slot) :
      Steps life (.begin chance target hasCallback) slot chance.magic
        (stocked life.begun.length target hasCallback life.searcher.routerModule.nodeStore)
  | reply {chance : SearchChance} {reply : SearchReply} {asked : Asked} {nodeStore : NodeStore}
      {search : Search} (delivered : Delivered chance reply life.searcher asked nodeStore)
      (brings : Brings reply asked nodeStore search) :
      Steps life (.reply chance reply) asked.slot chance.magic search
  | timeout {chance : SearchChance} {slot : Fin MAX_SEARCHES} {search : Search}
      (occupied : life.searcher.searches slot = some search) :
      Steps life (.timeout chance slot) slot chance.magic search

/-- The transaction id of the next request of a search -/
def nextTxid (slot : Fin MAX_SEARCHES) (magic : BitVec 32) (search : Search) : List (BitVec 8) :=
  NodeIndex.bytes
    { search := BitVec.ofNat 16 slot
      node := BitVec.ofNat 16 search.nodesAskedIndex
      magic := magic }

/-- No search with a node left to ask has sent `MAX_REQUESTS_PER_SEARCH` requests, one of them
uncounted, and the random number makes no transaction id that there has been. -/
def Spared (life : Life) (event : Occurrence) : Prop :=
  ∀ slot magic search, Steps life event slot magic search → search.searchStack ≠ [] →
    search.callbackContext.totalRequests + 1 ≠ MAX_REQUESTS_PER_SEARCH ∧
      ∀ id, nextTxid slot magic search ∉ txids (life.history id)

/-! ## Taking nodes -/

variable {chance : SearchChance} {reply : SearchReply} {searcher : Searcher} {asked : Asked}
  {nodeStore : NodeStore} {search next : Search} {slot : Fin MAX_SEARCHES} {life after : Life}

/-- Only what is on the stack has changed. -/
def Restacked (search next : Search) : Prop :=
  ∃ stack, next = { search with searchStack := stack }

omit [AddressCalc] in
theorem Restacked.refl (search : Search) : Restacked search search :=
  ⟨search.searchStack, rfl⟩

omit [AddressCalc] in
theorem Restacked.trans {last : Search} (first : Restacked search next)
    (second : Restacked next last) : Restacked search last := by
  rcases first with ⟨stack, rfl⟩
  rcases second with ⟨other, rfl⟩
  exact ⟨other, rfl⟩

omit [AddressCalc] in
theorem restacked_addNodeToSearch {addr : Address}
    (adds : SearchStore.addNodeToSearch addr search = some next) : Restacked search next := by
  rw [SearchStore.addNodeToSearch_eq] at adds
  split_ifs at adds
  exact ⟨_, (Option.some.inj adds).symm⟩

omit [AddressCalc] in
theorem restacked_getD (addr : Address) (search : Search) :
    Restacked search ((SearchStore.addNodeToSearch addr search).getD search) := by
  cases adds : SearchStore.addNodeToSearch addr search with
  | none => exact .refl search
  | some next => exact restacked_addNodeToSearch adds

theorem restacked_stocked (id : ℕ) (target : Address) (hasCallback : Bool) (store : NodeStore) :
    Restacked (newSearch id target hasCallback) (stocked id target hasCallback store) := by
  unfold stocked
  generalize store.getClosestNodes target none K true Version.CURRENT_PROTOCOL = nodes
  generalize newSearch id target hasCallback = search
  induction nodes generalizing search with
  | nil => exact .refl search
  | cons node nodes ih => exact (restacked_getD node.address search).trans (ih _)

theorem restacked_consider (reading : Reading) (addr : Address) (nodeStore : NodeStore)
    (state : Absorbed) : Restacked state.search (consider reading addr nodeStore state).search := by
  unfold consider
  split_ifs
  · exact .refl _
  · cases adds : SearchStore.addNodeToSearch (candidate addr nodeStore) state.search with
    | none => exact .refl _
    | some next => exact restacked_addNodeToSearch adds

theorem restacked_turn {reading : Reading} {i : ℕ} {state later : Absorbed}
    (taken : turn reading i state = .ok (some later)) : Restacked state.search later.search := by
  rw [turn, Checked.bind_eq_ok] at taken
  rcases taken with ⟨heard, -, taken⟩
  cases heard with
  | skipped =>
      simp only [Except.ok.injEq, Option.some.injEq] at taken
      exact taken ▸ .refl _
  | looped path =>
      simp only [Except.ok.injEq, Option.some.injEq] at taken
      exact taken ▸ .refl _
  | garbage => cases taken
  | told addr =>
      simp only [Checked.bind_eq_ok, Except.ok.injEq, Option.some.injEq] at taken
      rcases taken with ⟨version, -, store, -, same⟩
      exact same ▸ restacked_consider reading addr store state

theorem restacked_absorbReply {nodes : List (BitVec 8)} {absorbed : Absorbed}
    (absorbs : absorbReply reply asked nodes nodeStore = .ok absorbed) :
    Restacked asked.search absorbed.search := by
  rcases comes_of_absorbReply absorbs with ⟨versions, last, comes, rfl⟩
  clear absorbs
  induction comes with
  | initial starts =>
      rw [starts]
      exact .refl _
  | step earlier met taken ih => exact ih.trans (restacked_turn taken.2.1)

theorem Brings.restacked (brings : Brings reply asked nodeStore search) :
    Restacked asked.search search := by
  cases brings with
  | nothing => exact .refl _
  | nodes gives absorbs => exact restacked_absorbReply absorbs

/-! ## One request -/

/-- A search after its next request -/
structure Asks (slot : Fin MAX_SEARCHES) (magic : BitVec 32) (search next : Search) : Prop where
  id_eq : next.id = search.id
  hasCallback_eq : next.callbackContext.hasCallback = search.callbackContext.hasCallback
  txid_eq : ∀ position, (next.nodesAsked position).txid =
    if position = search.nodesAskedIndex then some (nextTxid slot magic search)
    else (search.nodesAsked position).txid

omit [AddressCalc] in
theorem getNextNode_cases (slot : Fin MAX_SEARCHES) (now : BitVec 64) (magic : BitVec 32)
    (search : Search) :
    (search.searchStack = [] ∧ SearchStore.getNextNode slot now magic search = none) ∨
      search.searchStack ≠ [] ∧ ∃ next,
        SearchStore.getNextNode slot now magic search = some (search.nodesAskedIndex, next) ∧
          Asks slot magic search next ∧ next.callbackContext = search.callbackContext := by
  cases stack : search.searchStack with
  | nil => simp [SearchStore.getNextNode, stack]
  | cons address rest =>
      right
      simp only [SearchStore.getNextNode, stack]
      refine ⟨List.cons_ne_nil _ _, _, rfl, ⟨rfl, rfl, fun position => ?_⟩, rfl⟩
      simp only [Function.update_apply]
      split_ifs <;> rfl

theorem searchStep_cases (chance : SearchChance) (slot : Fin MAX_SEARCHES) (search : Search)
    (searcher : Searcher) :
    searcher.searchStep chance slot search = searcher.endSearch slot search ∨
      search.searchStack ≠ [] ∧
        search.callbackContext.totalRequests < MAX_REQUESTS_PER_SEARCH ∧
        ∃ next address target, Asks slot chance.magic search next ∧
          next.callbackContext.totalRequests = search.callbackContext.totalRequests + 1 ∧
          searcher.searchStep chance slot search =
            (searcher.withSearch slot (some next),
              [.request address (nextTxid slot chance.magic search) target]) := by
  rcases getNextNode_cases slot chance.now chance.magic search with
    ⟨-, nothing⟩ | ⟨waiting, next, gives, asks, same⟩
  · left
    simp [searchStep, nothing]
  · simp only [searchStep, gives]
    split_ifs with many
    · exact .inl rfl
    · right
      have txid : (next.nodesAsked search.nodesAskedIndex).txid =
          some (nextTxid slot chance.magic search) := by
        rw [asks.txid_eq, if_pos rfl]
      simp only [txid, Option.getD_some]
      refine ⟨waiting, not_le.mp many, _, _, _, ?_, ?_, rfl⟩
      · refine ⟨asks.id_eq, asks.hasCallback_eq, fun position => ?_⟩
        rw [← asks.txid_eq position]
        simp only [Function.update_apply]
        split_ifs with here
        · rw [here, txid]
        · rfl
      · rw [same]

/-- What `RouterModule_beginSearch` leaves -/
theorem beginSearch_eq_some {id : ℕ} {target : Address} {hasCallback : Bool} {later : Searcher}
    {outputs : List SearchOutput}
    (begins : searcher.beginSearch chance id target hasCallback = .ok (some (later, outputs))) :
    ∃ slot next address, SearchStore.freeSlot searcher.searches = some slot ∧
      (stocked id target hasCallback searcher.routerModule.nodeStore).searchStack ≠ [] ∧
      Asks slot chance.magic (stocked id target hasCallback searcher.routerModule.nodeStore) next ∧
      next.callbackContext.totalRequests = 0 ∧
      later.searches = Function.update searcher.searches slot (some next) ∧
      outputs = [.request address (nextTxid slot chance.magic
        (stocked id target hasCallback searcher.routerModule.nodeStore)) target.resolved.ip6] := by
  unfold beginSearch at begins
  cases free : SearchStore.freeSlot searcher.searches with
  | none => simp [free] at begins
  | some slot =>
      simp only [free] at begins
      split_ifs at begins with empty
      · cases begins
      generalize first : SearchStore.getNextNode slot chance.now chance.magic _ = found at begins
      have first : SearchStore.getNextNode slot chance.now chance.magic
        (stocked id target hasCallback searcher.routerModule.nodeStore) = found := first
      rcases getNextNode_cases slot chance.now chance.magic
        (stocked id target hasCallback searcher.routerModule.nodeStore) with
        ⟨-, nothing⟩ | ⟨waiting, next, gives, asks, same⟩
      · rw [first.symm.trans nothing] at begins
        cases begins
      · rw [first.symm.trans gives] at begins
        simp only [Except.ok.injEq, Option.some.injEq, Prod.mk.injEq] at begins
        rcases begins with ⟨rfl, rfl⟩
        rcases restacked_stocked id target hasCallback searcher.routerModule.nodeStore with
          ⟨stack, opened⟩
        rw [asks.txid_eq (stocked id target hasCallback
          searcher.routerModule.nodeStore).nodesAskedIndex, if_pos rfl, Option.getD_some]
        refine ⟨slot, _, _, rfl, waiting, ?_, ?_, rfl, rfl⟩
        · exact ⟨asks.id_eq, asks.hasCallback_eq, asks.txid_eq⟩
        · change next.callbackContext.totalRequests = 0
          rw [same, opened]
          rfl

/-- A reply comes to nothing for the searches, or one of them goes on. -/
theorem handleReply_cases {replied : Replied}
    (handles : handleReply chance reply searcher = .ok replied) :
    (replied.advanced = none ∧ replied.searcher.searches = searcher.searches) ∨
      ∃ asked nodeStore search results, ∃ later : Searcher,
        Delivered chance reply searcher asked nodeStore ∧ Brings reply asked nodeStore search ∧
          later.searches = searcher.searches ∧ (∀ output ∈ results, output = .result) ∧
          replied = later.proceed chance asked results search := by
  unfold handleReply at handles
  cases found : searcher.routerModule.nodeStore.getNodeByNetworkAddr chance.rand
      reply.address.path with
  | none =>
      simp only [found, Except.ok.injEq] at handles
      exact handles ▸ .inl ⟨rfl, rfl⟩
  | some node =>
      simp only [found] at handles
      split_ifs at handles with other
      · simp only [Except.ok.injEq] at handles
        exact handles ▸ .inl ⟨rfl, rfl⟩
      rw [ne_eq, not_not] at other
      cases adds : searcher.routerModule.nodeStore.addNode reply.address 2
          (senderVersion reply.toReply) with
      | null after => simp [adds] at handles
      | aborted => simp [adds] at handles
      | node added after =>
          simp only [adds] at handles
          split_ifs at handles with toSearch
          · rw [(handleTid_toSearch toSearch).1] at handles
            unfold handleSearchReply at handles
            cases finds : reply.txid.bind fun tid =>
                SearchStore.getNode tid searcher.searches with
            | none =>
                simp only [finds, Except.ok.injEq] at handles
                exact handles ▸ .inl ⟨rfl, rfl⟩
            | some asked =>
                simp only [finds] at handles
                split_ifs at handles with sender
                · have delivered : Delivered chance reply searcher asked _ :=
                    ⟨⟨node, found, other⟩, finds, sender, added, after, adds, rfl⟩
                  right
                  unfold handleExpected at handles
                  cases gives : reply.nodes with
                  | none =>
                      simp only [gives, Except.ok.injEq] at handles
                      refine ⟨asked, _, _, [], _, delivered, .nothing gives, ?_, ?_, handles.symm⟩
                      · rfl
                      · exact fun output inside => absurd inside List.not_mem_nil
                  | some nodes =>
                      simp only [gives] at handles
                      rcases Checked.bind_eq_ok.mp handles with ⟨absorbed, absorbs, ends⟩
                      rw [Except.ok.injEq] at ends
                      refine ⟨asked, _, _, _, _, delivered, .nodes gives absorbs, ?_, ?_,
                        ends.symm⟩
                      · rfl
                      · intro output inside
                        split_ifs at inside
                        · exact List.mem_singleton.mp inside
                        · exact absurd inside List.not_mem_nil
                · simp only [Except.ok.injEq] at handles
                  exact handles ▸ .inl ⟨rfl, rfl⟩
          · simp only [Except.ok.injEq] at handles
            exact handles ▸ .inl ⟨rfl, rfl⟩

/-! ## What a step can do -/

inductive Moves (before : Life) (event : Occurrence) (after : Life) : Prop where
  | still (searches_eq : after.searcher.searches = before.searcher.searches)
      (begun_eq : after.begun = before.begun) (history_eq : after.history = before.history)
  /-- A search ends. -/
  | finishes {slot : Fin MAX_SEARCHES} {search : Search} {results : List SearchOutput}
      (occupied : before.searcher.searches slot = some search)
      (plain : ∀ output ∈ results, output = .result)
      (searches_eq : after.searcher.searches =
        Function.update before.searcher.searches slot none)
      (begun_eq : after.begun = before.begun)
      (history_eq : after.history = Function.update before.history search.id
        (before.history search.id ++
          (results ++ if search.callbackContext.hasCallback then [.finished] else [])))
  /-- A search sends a request. -/
  | asks {slot : Fin MAX_SEARCHES} {magic : BitVec 32} {old search next : Search}
      {results : List SearchOutput} {address : Address} {target : BitVec 128}
      (occupied : before.searcher.searches slot = some old) (restacked : Restacked old search)
      (steps : Steps before event slot magic search) (waiting : search.searchStack ≠ [])
      (few : search.callbackContext.totalRequests < MAX_REQUESTS_PER_SEARCH)
      (asks : Asks slot magic search next)
      (total_eq :
        next.callbackContext.totalRequests = search.callbackContext.totalRequests + 1)
      (plain : ∀ output ∈ results, output = .result)
      (searches_eq : after.searcher.searches =
        Function.update before.searcher.searches slot (some next))
      (begun_eq : after.begun = before.begun)
      (history_eq : after.history = Function.update before.history search.id
        (before.history search.id ++
          (results ++ [.request address (nextTxid slot magic search) target])))
  /-- A search is begun and sends its first request. -/
  | begins {slot : Fin MAX_SEARCHES} {magic : BitVec 32} {target : Address} {hasCallback : Bool}
      {search next : Search} {address : Address}
      (free : before.searcher.searches slot = none)
      (opened : Restacked (newSearch before.begun.length target hasCallback) search)
      (steps : Steps before event slot magic search) (waiting : search.searchStack ≠ [])
      (asks : Asks slot magic search next) (total_eq : next.callbackContext.totalRequests = 0)
      (searches_eq : after.searcher.searches =
        Function.update before.searcher.searches slot (some next))
      (begun_eq : after.begun = before.begun ++ [hasCallback])
      (history_eq : after.history = Function.update before.history before.begun.length
        (before.history before.begun.length ++
          [.request address (nextTxid slot magic search) target.resolved.ip6]))

variable {event : Occurrence}

/-- What `searchStep` does for a search is the end of it or a request. -/
theorem moves_of_searchStep {old : Search} {results : List SearchOutput}
    (occupied : life.searcher.searches slot = some old) (restacked : Restacked old search)
    (steps : Steps life event slot chance.magic search)
    (plain : ∀ output ∈ results, output = .result)
    (same : searcher.searches = life.searcher.searches) :
    Moves life event (Life.record search.id (results ++ (searcher.searchStep chance slot search).2)
      { life with searcher := (searcher.searchStep chance slot search).1 }) := by
  rcases searchStep_cases chance slot search searcher with
    ends | ⟨waiting, few, next, address, target, asks, total, goes⟩
  · rw [ends]
    rcases restacked with ⟨stack, rfl⟩
    refine .finishes occupied plain ?_ rfl rfl
    simp only [endSearch, withSearch, same]
    rfl
  · rw [goes]
    refine .asks occupied restacked steps waiting few asks total plain ?_ rfl rfl
    simp only [withSearch, same]
    rfl

omit [AddressCalc] in
theorem free_of_freeSlot {searches : Searches} (free : SearchStore.freeSlot searches = some slot) :
    searches slot = none := by
  have vacant := List.find?_some free
  simpa using vacant

theorem moves_of_step (taken : life.step event = some after) : Moves life event after := by
  cases event with
  | begin chance target hasCallback =>
      unfold Life.step at taken
      cases begins : life.searcher.beginSearch chance life.begun.length target hasCallback with
      | error fault => simp [begins] at taken
      | ok result =>
          cases result with
          | none =>
              simp only [begins, Option.some.injEq] at taken
              exact taken ▸ .still rfl rfl rfl
          | some result =>
              rcases result with ⟨searcher, outputs⟩
              simp only [begins, Option.some.injEq] at taken
              rcases beginSearch_eq_some begins with
                ⟨slot, next, address, free, waiting, asks, zero, searches, rfl⟩
              subst taken
              exact .begins (free_of_freeSlot free) (restacked_stocked ..) (.begin free) waiting asks
                zero searches rfl rfl
  | reply chance reply =>
      unfold Life.step at taken
      cases handles : handleReply chance reply life.searcher with
      | error fault => simp [handles] at taken
      | ok replied =>
          simp only [handles] at taken
          rcases handleReply_cases handles with
            ⟨nothing, same⟩ | ⟨asked, store, search, results, later, delivered, brings, same, plain,
              rfl⟩
          · simp only [nothing, Option.some.injEq] at taken
            exact taken ▸ .still same rfl rfl
          · simp only [proceed, Option.some.injEq] at taken
            subst taken
            rcases Option.bind_eq_some_iff.mp delivered.found with ⟨tid, -, finds⟩
            exact moves_of_searchStep (SearchStore.getNode_eq_some finds).1 brings.restacked
              (.reply delivered brings) plain same
  | timeout chance slot =>
      unfold Life.step at taken
      cases occupied : life.searcher.searches slot with
      | none => simp [occupied] at taken
      | some search =>
          simp only [occupied, Option.some.injEq] at taken
          subst taken
          exact @moves_of_searchStep _ chance _ search slot life _ search [] occupied (.refl search)
            (.timeout occupied) (fun output inside => absurd inside List.not_mem_nil) rfl
  | meanwhile routerModule =>
      simp only [Life.step, Option.some.injEq] at taken
      exact taken ▸ .still rfl rfl rfl

/-! ## The ledger of the searches -/

/-- A search that has a slot -/
structure Active (life : Life) (search : Search) : Prop where
  begun_eq : life.begun[search.id]? = some search.callbackContext.hasCallback
  counted : (txids (life.history search.id)).length = search.callbackContext.totalRequests + 1
  few : search.callbackContext.totalRequests < MAX_REQUESTS_PER_SEARCH
  unfinished : .finished ∉ life.history search.id
  own : ∀ position txid, (search.nodesAsked position).txid = some txid →
    txid ∈ txids (life.history search.id)

/-- The history of a search that has ended -/
structure Ended (outputs : List SearchOutput) (hasCallback : Bool) : Prop where
  few : (txids outputs).length ≤ MAX_REQUESTS_PER_SEARCH
  once : ∃ earlier, outputs = earlier ++ (if hasCallback then [.finished] else []) ∧
    .finished ∉ earlier

structure Consistent (life : Life) : Prop where
  active : ∀ slot search, life.searcher.searches slot = some search → Active life search
  alone : ∀ slot search place other, life.searcher.searches slot = some search →
    life.searcher.searches place = some other → search.id = other.id → slot = place
  ended : ∀ id hasCallback, life.begun[id]? = some hasCallback → Freed life id →
    Ended (life.history id) hasCallback
  unbegun : ∀ id, life.begun.length ≤ id → life.history id = []
  distinct : ∀ id other txid, txid ∈ txids (life.history id) →
    txid ∈ txids (life.history other) → id = other

omit [AddressCalc] in
@[simp]
theorem txids_append (outputs others : List SearchOutput) :
    txids (outputs ++ others) = txids outputs ++ txids others :=
  List.filterMap_append

omit [AddressCalc] in
/-- The callback with a reply is no request. -/
theorem txids_of_plain {outputs : List SearchOutput}
    (plain : ∀ output ∈ outputs, output = .result) : txids outputs = [] := by
  rw [txids, List.filterMap_eq_nil_iff]
  intro output inside
  rw [plain output inside]
  rfl

omit [AddressCalc] in
theorem finished_not_mem_of_plain {outputs : List SearchOutput}
    (plain : ∀ output ∈ outputs, output = .result) : .finished ∉ outputs := by
  intro inside
  cases plain _ inside

omit [AddressCalc] in
theorem txids_ending (hasCallback : Bool) :
    txids (if hasCallback then [.finished] else []) = [] := by
  cases hasCallback <;> rfl

omit [AddressCalc] in
/-- With new transaction ids in one history, those of different searches still differ. -/
theorem distinct_update {history : ℕ → List SearchOutput} {id : ℕ} {outputs : List SearchOutput}
    (distinct : ∀ id other txid, txid ∈ txids (history id) → txid ∈ txids (history other) →
      id = other)
    (fresh : ∀ txid ∈ txids outputs, ∀ other, txid ∉ txids (history other)) (first second : ℕ)
    (txid : List (BitVec 8))
    (inFirst : txid ∈ txids (Function.update history id (history id ++ outputs) first))
    (inSecond : txid ∈ txids (Function.update history id (history id ++ outputs) second)) :
    first = second := by
  have cases_of (other : ℕ)
      (inside : txid ∈ txids (Function.update history id (history id ++ outputs) other)) :
      txid ∈ txids (history other) ∨ other = id ∧ txid ∈ txids outputs := by
    rw [Function.update_apply] at inside
    split_ifs at inside with same
    · rw [txids_append, List.mem_append] at inside
      exact inside.imp (fun old => same ▸ old) fun new => ⟨same, new⟩
    · exact .inl inside
  rcases cases_of first inFirst with oldFirst | ⟨firstEq, newFirst⟩ <;>
    rcases cases_of second inSecond with oldSecond | ⟨secondEq, newSecond⟩
  · exact distinct first second txid oldFirst oldSecond
  · exact absurd oldFirst (fresh txid newSecond first)
  · exact absurd oldSecond (fresh txid newFirst second)
  · rw [firstEq, secondEq]

variable {before : Life}

/-- What is done for another search does not concern a search. -/
theorem Active.of_other (active : Active before search) {id : ℕ} {outputs : List SearchOutput}
    (other : search.id ≠ id) {more : List Bool} (begun_eq : after.begun = before.begun ++ more)
    (history_eq : after.history =
      Function.update before.history id (before.history id ++ outputs)) :
    Active after search := by
  have same : after.history search.id = before.history search.id := by
    rw [history_eq, Function.update_of_ne other]
  refine ⟨?_, ?_, active.few, ?_, ?_⟩
  · rw [begun_eq, List.getElem?_append_left]
    · exact active.begun_eq
    · exact (List.getElem?_eq_some_iff.mp active.begun_eq).1
  · rw [same]
    exact active.counted
  · rw [same]
    exact active.unfinished
  · rw [same]
    exact active.own

theorem Consistent.still (consistent : Consistent before)
    (searches_eq : after.searcher.searches = before.searcher.searches)
    (begun_eq : after.begun = before.begun) (history_eq : after.history = before.history) :
    Consistent after := by
  refine ⟨?_, ?_, ?_, ?_, ?_⟩
  · intro slot search occupied
    rw [searches_eq] at occupied
    have active := consistent.active slot search occupied
    refine ⟨?_, ?_, active.few, ?_, ?_⟩
    · rw [begun_eq]
      exact active.begun_eq
    · rw [history_eq]
      exact active.counted
    · rw [history_eq]
      exact active.unfinished
    · rw [history_eq]
      exact active.own
  · rw [searches_eq]
    exact consistent.alone
  · intro id hasCallback begun freed
    rw [begun_eq] at begun
    rw [history_eq]
    apply consistent.ended id hasCallback begun
    rw [Freed, searches_eq] at freed
    exact freed
  · rw [begun_eq, history_eq]
    exact consistent.unbegun
  · rw [history_eq]
    exact consistent.distinct

/-- A step for one search, in its slot, leaves the others as they are. -/
theorem Consistent.changes (consistent : Consistent before) {id : ℕ} {value : Option Search}
    {more : List Bool} {outputs : List SearchOutput}
    (searches_eq : after.searcher.searches = Function.update before.searcher.searches slot value)
    (begun_eq : after.begun = before.begun ++ more)
    (history_eq : after.history =
      Function.update before.history id (before.history id ++ outputs))
    (occupant : ∀ old, before.searcher.searches slot = some old → old.id = id)
    (elsewhere : ∀ place other, place ≠ slot → before.searcher.searches place = some other →
      other.id ≠ id)
    (active : ∀ search, value = some search → search.id = id ∧ Active after search)
    (ended : value = none → ∀ hasCallback, after.begun[id]? = some hasCallback →
      Ended (after.history id) hasCallback)
    (inside : id < after.begun.length)
    (others : ∀ other hasCallback, other ≠ id → after.begun[other]? = some hasCallback →
      before.begun[other]? = some hasCallback)
    (fresh : ∀ txid ∈ txids outputs, ∀ other, txid ∉ txids (before.history other)) :
    Consistent after := by
  have place_cases (place : Fin MAX_SEARCHES) (search : Search)
      (occupied : after.searcher.searches place = some search) :
      (place = slot ∧ value = some search) ∨
        place ≠ slot ∧ before.searcher.searches place = some search := by
    rw [searches_eq, Function.update_apply] at occupied
    split_ifs at occupied with here
    · exact .inl ⟨here, occupied⟩
    · exact .inr ⟨here, occupied⟩
  refine ⟨?_, ?_, ?_, ?_, ?_⟩
  · intro place search occupied
    rcases place_cases place search occupied with ⟨-, same⟩ | ⟨other, earlier⟩
    · exact (active search same).2
    · exact (consistent.active place search earlier).of_other (elsewhere place search other earlier)
        begun_eq history_eq
  · intro place search other another occupied present same
    rcases place_cases place search occupied with ⟨here, new⟩ | ⟨away, earlier⟩ <;>
      rcases place_cases other another present with ⟨there, late⟩ | ⟨apart, early⟩
    · rw [here, there]
    · exact absurd ((same.symm.trans (active search new).1)) (elsewhere other another apart early)
    · exact absurd (same.trans (active another late).1) (elsewhere place search away earlier)
    · exact consistent.alone place search other another earlier early same
  · intro number hasCallback begun freed
    by_cases this : number = id
    · subst this
      cases value with
      | none => exact ended rfl hasCallback begun
      | some search =>
          have occupied : after.searcher.searches slot = some search := by
            rw [searches_eq, Function.update_self]
          exact absurd (active search rfl).1 (freed slot search occupied)
    · rw [history_eq, Function.update_of_ne this]
      apply consistent.ended number hasCallback (others number hasCallback this begun)
      intro place search earlier
      by_cases here : place = slot
      · subst here
        rw [occupant search earlier]
        exact Ne.symm this
      · apply freed place search
        rw [searches_eq, Function.update_of_ne here]
        exact earlier
  · intro number outside
    rw [history_eq, Function.update_of_ne (by omega)]
    apply consistent.unbegun
    rw [begun_eq, List.length_append] at outside
    omega
  · rw [history_eq]
    exact distinct_update consistent.distinct fresh

/-- A search that has sent a request has its transaction id besides those it had. -/
theorem active_of_asks {magic : BitVec 32} {earlier : List SearchOutput} {address : Address}
    {target : BitVec 128} (asks : Asks slot magic search next)
    (begun_eq : after.begun[search.id]? = some search.callbackContext.hasCallback)
    (history_eq : after.history search.id =
      earlier ++ [.request address (nextTxid slot magic search) target])
    (counted : (txids earlier).length = next.callbackContext.totalRequests)
    (few : next.callbackContext.totalRequests < MAX_REQUESTS_PER_SEARCH)
    (unfinished : .finished ∉ earlier)
    (own : ∀ position txid, (search.nodesAsked position).txid = some txid →
      txid ∈ txids earlier) : Active after next := by
  have new : txids (earlier ++ [.request address (nextTxid slot magic search) target]) =
      txids earlier ++ [nextTxid slot magic search] :=
    txids_append _ _
  refine ⟨?_, ?_, few, ?_, ?_⟩
  · rw [asks.id_eq, asks.hasCallback_eq]
    exact begun_eq
  · rw [asks.id_eq, history_eq, new, List.length_append, counted]
    rfl
  · rw [asks.id_eq, history_eq, List.mem_append, not_or]
    exact ⟨unfinished, by simp⟩
  · intro position txid present
    rw [asks.id_eq, history_eq, new, List.mem_append]
    rw [asks.txid_eq] at present
    split_ifs at present
    · right
      rw [Option.some.injEq] at present
      exact List.mem_singleton.mpr present.symm
    · exact .inl (own position txid present)

theorem Consistent.finishes (consistent : Consistent before) {results : List SearchOutput}
    (occupied : before.searcher.searches slot = some search)
    (plain : ∀ output ∈ results, output = .result)
    (searches_eq : after.searcher.searches = Function.update before.searcher.searches slot none)
    (begun_eq : after.begun = before.begun)
    (history_eq : after.history = Function.update before.history search.id
      (before.history search.id ++
        (results ++ if search.callbackContext.hasCallback then [.finished] else []))) :
    Consistent after := by
  have active := consistent.active slot search occupied
  have unasked : txids (results ++
      if search.callbackContext.hasCallback then [.finished] else []) = [] := by
    rw [txids_append, txids_of_plain plain, txids_ending, List.append_nil]
  have begun_more : after.begun = before.begun ++ [] := by rw [begun_eq, List.append_nil]
  refine consistent.changes searches_eq begun_more history_eq ?_ ?_ ?_ ?_ ?_ ?_ ?_
  · intro old present
    rw [occupied, Option.some.injEq] at present
    rw [present]
  · intro place other away present same
    exact away (consistent.alone place other slot search present occupied same)
  · intro other impossible
    cases impossible
  · intro _ hasCallback begun
    rw [begun_eq, active.begun_eq, Option.some.injEq] at begun
    rw [history_eq, Function.update_self]
    refine ⟨?_, before.history search.id ++ results, ?_, ?_⟩
    · rw [txids_append, unasked, List.append_nil, active.counted]
      exact active.few
    · rw [List.append_assoc, begun]
    · rw [List.mem_append, not_or]
      exact ⟨active.unfinished, finished_not_mem_of_plain plain⟩
  · rw [begun_eq]
    exact (List.getElem?_eq_some_iff.mp active.begun_eq).1
  · intro other hasCallback _ begun
    rwa [begun_eq] at begun
  · intro txid inside
    rw [unasked] at inside
    exact absurd inside List.not_mem_nil

/-- A step keeps the ledger consistent if no search overruns. -/
theorem Consistent.moves (consistent : Consistent before) (spared : Spared before event)
    (moves : Moves before event after) : Consistent after := by
  cases moves with
  | still searches_eq begun_eq history_eq =>
      exact consistent.still searches_eq begun_eq history_eq
  | finishes occupied plain searches_eq begun_eq history_eq =>
      exact consistent.finishes occupied plain searches_eq begun_eq history_eq
  | @asks slot magic old search next results address target occupied restacked steps waiting few asks
      total_eq plain searches_eq begun_eq history_eq =>
      have active := consistent.active slot old occupied
      rcases spared slot magic search steps waiting with ⟨notLast, unused⟩
      have requested : txids (results ++ [.request address (nextTxid slot magic search) target]) =
          [nextTxid slot magic search] := by
        rw [txids_append, txids_of_plain plain]
        rfl
      have begun_more : after.begun = before.begun ++ [] := by rw [begun_eq, List.append_nil]
      rcases restacked with ⟨stack, rfl⟩
      have history_here := congrFun history_eq old.id
      rw [Function.update_self, ← List.append_assoc] at history_here
      refine consistent.changes searches_eq begun_more history_eq ?_ ?_ ?_ ?_ ?_ ?_ ?_
      · intro other present
        rw [occupied, Option.some.injEq] at present
        rw [← present]
      · intro place other away present same
        exact away (consistent.alone place other slot old present occupied same)
      · intro other same
        rw [Option.some.injEq] at same
        subst same
        refine ⟨asks.id_eq, active_of_asks asks ?_ history_here ?_ ?_ ?_ ?_⟩
        · rw [begun_eq]
          exact active.begun_eq
        · rw [txids_append, txids_of_plain plain, List.append_nil, total_eq]
          exact active.counted
        · rw [total_eq]
          exact lt_of_le_of_ne few notLast
        · rw [List.mem_append, not_or]
          exact ⟨active.unfinished, finished_not_mem_of_plain plain⟩
        · intro position txid present
          rw [txids_append]
          exact List.mem_append_left _ (active.own position txid present)
      · intro impossible
        cases impossible
      · rw [begun_eq]
        exact (List.getElem?_eq_some_iff.mp active.begun_eq).1
      · intro other hasCallback _ begun
        rwa [begun_eq] at begun
      · intro txid inside
        rw [requested, List.mem_singleton] at inside
        rw [inside]
        exact unused
  | @begins slot magic target hasCallback search next address free opened steps waiting asks total_eq
      searches_eq begun_eq history_eq =>
      rcases spared slot magic search steps waiting with ⟨-, unused⟩
      have nothing := consistent.unbegun before.begun.length le_rfl
      have older (place : Fin MAX_SEARCHES) (other : Search)
          (present : before.searcher.searches place = some other) :
          other.id < before.begun.length :=
        (List.getElem?_eq_some_iff.mp (consistent.active place other present).begun_eq).1
      rcases opened with ⟨stack, rfl⟩
      have history_here := congrFun history_eq before.begun.length
      rw [Function.update_self] at history_here
      refine consistent.changes searches_eq begun_eq history_eq ?_ ?_ ?_ ?_ ?_ ?_ ?_
      · intro other present
        rw [free] at present
        cases present
      · intro place other _ present
        exact (older place other present).ne
      · intro other same
        rw [Option.some.injEq] at same
        subst same
        refine ⟨asks.id_eq, active_of_asks asks ?_ history_here ?_ ?_ ?_ ?_⟩
        · rw [begun_eq]
          exact List.getElem?_concat_length
        · rw [nothing, total_eq]
          rfl
        · rw [total_eq]
          decide
        · rw [nothing]
          exact List.not_mem_nil
        · intro position txid present
          cases present
      · intro impossible
        cases impossible
      · rw [begun_eq, List.length_append]
        exact Nat.lt_succ_self _
      · intro other callback different begun
        rw [begun_eq, List.getElem?_append] at begun
        split_ifs at begun with before
        · exact begun
        · have single := (List.getElem?_eq_some_iff.mp begun).1
          rw [List.length_singleton] at single
          omega
      · intro txid inside
        have single : txid = nextTxid slot magic _ := List.mem_singleton.mp inside
        rw [single]
        exact unused

/-! ## Whole runs -/

theorem consistent_isInvariant : lives.IsInvariant Spared Consistent where
  initial := by
    rintro life ⟨vacant, begun, history⟩
    refine ⟨?_, ?_, ?_, ?_, ?_⟩
    · intro slot search occupied
      rw [vacant] at occupied
      cases occupied
    · intro slot search place other occupied
      rw [vacant] at occupied
      cases occupied
    · intro id hasCallback present
      rw [begun] at present
      cases present
    · exact fun id _ => history id
    · intro id other txid inside
      rw [history] at inside
      cases inside
  step consistent spared taken := consistent.moves spared (moves_of_step taken)

/-- Nothing is done for a search that has no slot. -/
theorem freed_step {id : ℕ} (inside : id < before.begun.length) (freed : Freed before id)
    (taken : before.step event = some after) :
    after.history id = before.history id ∧ Freed after id := by
  have keeps (place : Fin MAX_SEARCHES) (value : Option Search)
      (others : ∀ search, value = some search → search.id ≠ id)
      (searches_eq : after.searcher.searches =
        Function.update before.searcher.searches place value) : Freed after id := by
    intro slot search occupied
    rw [searches_eq, Function.update_apply] at occupied
    split_ifs at occupied
    · exact others search occupied
    · exact freed slot search occupied
  cases moves_of_step taken with
  | still searches_eq begun_eq history_eq =>
      rw [history_eq, Freed, searches_eq]
      exact ⟨rfl, freed⟩
  | finishes occupied plain searches_eq begun_eq history_eq =>
      refine ⟨?_, keeps _ none (fun search impossible => by cases impossible) searches_eq⟩
      rw [history_eq, Function.update_of_ne (freed _ _ occupied).symm]
  | @asks slot magic old search next results address target occupied restacked steps waiting few asks
      total_eq plain searches_eq begun_eq history_eq =>
      have other := freed slot old occupied
      rcases restacked with ⟨stack, rfl⟩
      refine ⟨?_, keeps _ _ (fun search same => ?_) searches_eq⟩
      · rw [history_eq]
        exact Function.update_of_ne other.symm _ _
      · rw [Option.some.injEq] at same
        rw [← same, asks.id_eq]
        exact other
  | begins free opened steps waiting asks total_eq searches_eq begun_eq history_eq =>
      rcases opened with ⟨stack, rfl⟩
      refine ⟨?_, keeps _ _ (fun search same => ?_) searches_eq⟩
      · rw [history_eq, Function.update_of_ne inside.ne]
      · rw [Option.some.injEq] at same
        rw [← same, asks.id_eq]
        exact inside.ne'

/-- The transaction ids of a search without a slot are found no more. -/
theorem Consistent.getNode_eq_none (consistent : Consistent before) {id : ℕ}
    (freed : Freed before id) {txid : List (BitVec 8)}
    (inside : txid ∈ txids (before.history id)) :
    SearchStore.getNode txid before.searcher.searches = none := by
  cases found : SearchStore.getNode txid before.searcher.searches with
  | none => rfl
  | some asked =>
      rcases SearchStore.getNode_eq_some found with ⟨occupied, same, position, at_position⟩
      have active := consistent.active asked.slot asked.search occupied
      rw [← at_position] at same
      have mine := active.own position txid same
      exact absurd (consistent.distinct id asked.search.id txid inside mine).symm
        (freed asked.slot asked.search occupied)

/-- A reply with an unknown transaction id does nothing for any search. -/
theorem handleReply_of_unknown {replied : Replied} {txid : List (BitVec 8)}
    (has : reply.txid = some txid)
    (unknown : SearchStore.getNode txid searcher.searches = none)
    (handles : handleReply chance reply searcher = .ok replied) :
    replied.advanced = none ∧ replied.searcher.searches = searcher.searches := by
  rcases handleReply_cases handles with
    nothing | ⟨asked, store, search, results, later, delivered, -⟩
  · exact nothing
  · have found := delivered.found
    rw [has, Option.bind_some, unknown] at found
    cases found

/-- In a run in which no search overruns, every search has its life cycle. -/
theorem lifeCycle_of_reachable (reachable : lives.Reachable Spared life) : LifeCycle life := by
  have consistent := reachable.invariant consistent_isInvariant
  intro id hasCallback begun
  by_cases occupied : ∃ slot search, life.searcher.searches slot = some search ∧ search.id = id
  · rcases occupied with ⟨slot, search, present, rfl⟩
    have active := consistent.active slot search present
    refine ⟨?_, .inl ⟨active.unfinished, slot, search, present, rfl⟩⟩
    rw [active.counted]
    exact active.few
  · have freed : Freed life id := by
      intro slot search present same
      exact occupied ⟨slot, search, present, same⟩
    have ended := consistent.ended id hasCallback begun freed
    refine ⟨ended.few, .inr ⟨⟨freed, ended.once, ?_⟩, fun event after taken => ?_⟩⟩
    · intro txid inside chance reply replied has handles
      exact handleReply_of_unknown has (consistent.getNode_eq_none freed inside) handles
    · exact freed_step (List.getElem?_eq_some_iff.mp begun).1 freed taken

/-! ## Steps that overrun nothing -/

/-- The search that is stepped, before its stack changes, with its slot and the random number -/
def steppedSearch (life : Life) : Occurrence → Option (Fin MAX_SEARCHES × BitVec 32 × Search)
  | .begin chance target hasCallback =>
      (SearchStore.freeSlot life.searcher.searches).map fun slot =>
        (slot, chance.magic, newSearch life.begun.length target hasCallback)
  | .reply chance reply =>
      (reply.txid.bind fun tid => SearchStore.getNode tid life.searcher.searches).map fun asked =>
        (asked.slot, chance.magic, asked.search)
  | .timeout chance slot =>
      (life.searcher.searches slot).map fun search => (slot, chance.magic, search)
  | .meanwhile _ => none

/-- A step, as far as it is no last request and its transaction id is new -/
def sparingStep (life : Life) (event : Occurrence) : Option Life :=
  if ∀ stepped ∈ steppedSearch life event,
      stepped.2.2.callbackContext.totalRequests + 1 ≠ MAX_REQUESTS_PER_SEARCH ∧
        ∀ id < life.begun.length,
          nextTxid stepped.1 stepped.2.1 stepped.2.2 ∉ txids (life.history id) then
    life.step event
  else none

theorem Steps.stepped {magic : BitVec 32} (steps : Steps life event slot magic search) :
    ∃ earlier, steppedSearch life event = some (slot, magic, earlier) ∧
      Restacked earlier search := by
  cases steps with
  | begin free => exact ⟨_, by simp [steppedSearch, free], restacked_stocked _ _ _ _⟩
  | reply delivered brings =>
      exact ⟨_, by simp [steppedSearch, delivered.found], brings.restacked⟩
  | timeout occupied => exact ⟨_, by simp [steppedSearch, occupied], .refl _⟩

theorem Consistent.spared_of_sparingStep (consistent : Consistent life)
    (taken : sparingStep life event = some after) :
    Spared life event ∧ life.step event = some after := by
  rcases Option.ite_none_right_eq_some.mp taken with ⟨spares, taken⟩
  refine ⟨fun slot magic search steps _ => ?_, taken⟩
  rcases steps.stepped with ⟨earlier, stepped, stack, rfl⟩
  rcases spares _ stepped with ⟨notLast, unused⟩
  refine ⟨notLast, fun id => ?_⟩
  by_cases begun : id < life.begun.length
  · exact unused id begun
  · rw [consistent.unbegun id (not_lt.mp begun)]
    exact List.not_mem_nil

/-! ## Runs on fixed tables -/

/-- A node with a number, at a port of our own -/
def portNode (number : ℕ) : Address :=
  numbered (BitVec.ofNat 256 (number + 1)) (BitVec.ofNat 64 (2 * number + 0x11))

/-- A router with nodes around it, and no search yet -/
def crowded (count : ℕ) : Life where
  searcher :=
    { routerModule :=
        { nodeStore :=
            { thisNodeAddress := numbered 0xFF 1
              capacity := count + 8
              entries := (List.range count).map fun number => usedNode (portNode number)
              labelSum := BitVec.ofNat 32 (4 * count) }
          pings := fun _ => none }
      searches := fun _ => none }
  begun := []
  history := fun _ => []

/-- The node that is asked first tells of one that waits to be asked. -/
def tellingReply (number : ℕ) : SearchReply where
  address := portNode number
  protocol := some 2
  txid := some (List.replicate 8 0)
  nodes := some (List.replicate 27 0 ++ [3, 0, 0, 0, 0] ++ [0, 0, 0, 0, 0, 0, 0, 0x15])
  version := none
  nodeProtocols := none

/-- A search is begun, one reply comes, and then the time runs out again and again. -/
def searchRun : List Occurrence :=
  [.begin quietChance (numbered 0 0) true, .reply quietChance (tellingReply 7)] ++
    List.replicate 7 (.timeout quietChance ⟨0, by decide⟩)

theorem initial_crowded (count : ℕ) : lives.initial (crowded count) :=
  ⟨fun _ => rfl, rfl, fun _ => rfl⟩

omit [AddressCalc] in
/-- A search among three nodes takes a reply and runs out of nodes while a second one goes on. -/
theorem lifeCycle_of_two_searches : letI := AddressCalc.plain
    ∃ life, life.begun = [true, false] ∧ (life.history 0).getLast? = some .finished ∧
      (txids (life.history 0)).length = 3 ∧ (txids (life.history 1)).length = 2 ∧
      LifeCycle life := by
  let := AddressCalc.plain
  let events : List Occurrence := [.begin quietChance (numbered 0 0) true,
    .reply quietChance (tellingReply 2), .timeout quietChance ⟨0, by decide⟩,
    .begin quietChance (numbered 1 0) false, .timeout quietChance ⟨0, by decide⟩,
    .timeout quietChance ⟨1, by decide⟩]
  have run : (events.foldlM sparingStep (crowded 3)).any (fun life =>
      decide (life.begun = [true, false]) &&
        decide ((life.history 0).getLast? = some .finished) &&
        decide ((txids (life.history 0)).length = 3 ∧ (txids (life.history 1)).length = 2)) =
      true := by
    decide +kernel
  rcases (Option.any_eq_true _ _).mp run with ⟨life, run, ends⟩
  simp only [Bool.and_eq_true, decide_eq_true_eq] at ends
  rcases ends with ⟨⟨begun, ended⟩, counted, going⟩
  have starts : lives.Reachable Spared (crowded 3) := .initial (initial_crowded 3)
  refine ⟨life, begun, ended, counted, going, lifeCycle_of_reachable (starts.foldlM ?_ run)⟩
  intro before after event _ earlier taken
  exact (earlier.invariant consistent_isInvariant).spared_of_sparingStep taken

omit [AddressCalc] in
/-- The first request is not counted, and eight more are sent. -/
theorem nine_requests : letI := AddressCalc.plain
    ∃ life, lives.Reachable (fun _ _ => True) life ∧
      (txids (life.history 0)).length = MAX_REQUESTS_PER_SEARCH + 1 ∧ ¬ LifeCycle life := by
  let := AddressCalc.plain
  have ends : (searchRun.foldlM Life.step (crowded 8)).any (fun life =>
      decide (life.begun = [true]) &&
        decide ((txids (life.history 0)).length = MAX_REQUESTS_PER_SEARCH + 1)) = true := by
    decide +kernel
  rcases (Option.any_eq_true _ _).mp ends with ⟨life, run, ends⟩
  rw [Bool.and_eq_true, decide_eq_true_eq, decide_eq_true_eq] at ends
  rcases ends with ⟨begun, many⟩
  refine ⟨life, ?_, many, fun lifeCycle => ?_⟩
  · exact TransitionSystem.Reachable.run (.initial (initial_crowded 8)) id (fun _ _ _ => trivial)
      run
  · have few := (lifeCycle 0 true (by rw [begun]; rfl)).1
    rw [many] at few
    exact absurd few (by decide)

end Searcher

end Cjdns
