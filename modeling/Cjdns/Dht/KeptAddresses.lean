import Cjdns.Dht.ReplyModule
import Cjdns.Dht.Representation
import Cjdns.Dht.SearchLife

/-!
# What a router keeps

The addresses in the table of a router and on the stacks of its searches have all been given to it.
What is true of every address that is given stays true of all addresses that are kept, and of those
that requests are sent to.
-/

namespace Cjdns

variable [AddressCalc]

/-- A property of addresses that is not lost when an address is filled in, or when it gets the path
of another one with the same IPv6 address. -/
structure Address.Lasting (property : Address → Prop) : Prop where
  resolved : ∀ {addr : Address}, property addr → property addr.resolved
  exchanged : ∀ {addr other : Address}, property addr → property other → addr.resolved = addr →
    other.resolved = other → other.ip6 = addr.ip6 → property { addr with path := other.path }

/-! ## The table -/

namespace NodeStore

variable {property : Address → Prop} {store after : NodeStore} {addr : Address}

/-- The property holds of all addresses in the table. -/
def Holds (property : Address → Prop) (store : NodeStore) : Prop :=
  ∀ addr ∈ store.addresses, property addr

theorem Holds.of_subset (holds : store.Holds property)
    (subset : after.addresses ⊆ store.addresses) : after.Holds property :=
  fun addr inside => holds addr (subset inside)

theorem Holds.remove (holds : store.Holds property) (index : ℕ) :
    (store.remove index).Holds property := by
  refine holds.of_subset ?_
  rw [addresses_remove]
  exact fun addr inside => SwapRemove.mem_of_mem_swapRemove inside

theorem Holds.updateReach (holds : store.Holds property) (index : ℕ) (reach : BitVec 32) :
    (store.updateReach index reach).Holds property := by
  refine holds.of_subset ?_
  rw [addresses_updateReach]
  exact List.Subset.refl _

theorem Holds.brokenPath (holds : store.Holds property) (path : BitVec 64) :
    (store.brokenPath path).2.Holds property := by
  refine brokenPathLoop_preserves (Holds property) (fun _ _ _ kept => kept.remove _)
    (fun found kept => kept.of_subset ?_) _ _ holds
  rw [addresses_zeroReach found]
  exact List.Subset.refl _

theorem Holds.written {index : ℕ} (holds : store.Holds property) (given : property addr.resolved)
    (written : Written index addr store after) : after.Holds property := by
  intro other inside
  rw [written.addresses_eq, addressesWith] at inside
  split_ifs at inside with within
  · rcases List.mem_or_eq_of_mem_set inside with old | new
    · exact holds other old
    · exact new ▸ given
  · rcases List.mem_append.mp inside with old | new
    · exact holds other old
    · exact List.mem_singleton.mp new ▸ given

/-- What is added is what was given. -/
theorem Holds.addNode {reachDifference : ℤ} {version : BitVec 32} (holds : store.Holds property)
    (given : property addr.resolved)
    (added : (store.addNode addr reachDifference version).nodeStore = some after) :
    after.Holds property := by
  rcases addNode_cases addr reachDifference version store with
    nothing | ⟨-, aborts⟩ | ⟨last, middle, arrives, leaves⟩
  · rw [nothing] at added
    cases added
    exact holds
  · rw [aborts] at added
    cases added
  · have kept := arrives.preserves (Holds property) (fun _ kept => kept.remove _) holds
    generalize store.addNode addr reachDifference version = outcome at added leaves
    cases leaves with
    | kept sameFrame addresses_eq labelSum_eq =>
        cases added
        exact kept.of_subset (addresses_eq ▸ List.Subset.refl _)
    | null =>
        cases added
        exact kept
    | put place written =>
        cases added
        exact kept.written (by rwa [Address.resolved_resolved]) written
    | overrun => cases added

theorem Holds.entry (holds : store.Holds property) {entry : Entry}
    (inside : entry ∈ store.entries) : property entry.body.address :=
  holds _ (List.mem_map.mpr ⟨entry, inside, rfl⟩)

theorem Holds.getBest {node : Node} (holds : store.Holds property)
    (best : store.getBest addr = some node) :
    property node.address ∧ node.address.resolved = node.address := by
  rcases getBest_some best with ⟨entry, inside, -, rfl, -⟩
  exact ⟨show property entry.body.address from holds.entry inside, entry.resolved_eq⟩

theorem Holds.getClosestNodes {requestor : Option Address} {count : ℕ} {farther : Bool}
    {version : BitVec 32} {node : Node} (holds : store.Holds property)
    (inside : node ∈ store.getClosestNodes addr requestor count farther version) :
    property node.address := by
  have collecting : Collecting addr count (fun entry => entry ∈ store.entries)
      (collectClosest requestor version
        (NodeCollector.new addr count store.thisNodeAddress true) store.entries) :=
    (collecting_new ..).collectClosest fun entry member _ => member
  rcases List.mem_filterMap.mp inside with ⟨element, elementInside, held⟩
  rcases Option.map_eq_some_iff.mp held with ⟨entry, kept, rfl⟩
  exact show property entry.body.address from
    holds.entry (collecting.offered element elementInside entry kept).1

end NodeStore

/-! ## The searches -/

namespace Searcher

open SearchStore (Search MAX_SEARCHES)

variable {property : Address → Prop} {searcher later : Searcher} {chance : SearchChance}
  {slot : Fin MAX_SEARCHES} {search next : Search} {address addr : Address}
  {outputs : List SearchOutput} {store nodeStore : NodeStore} {reply : SearchReply}

/-- The property holds of all nodes that a search has still to ask. -/
def Stacked (property : Address → Prop) (search : Search) : Prop :=
  ∀ addr ∈ search.searchStack, property addr

/-- The property holds of all addresses that the router may send a request to. -/
structure Holds (property : Address → Prop) (searcher : Searcher) : Prop where
  table : searcher.routerModule.nodeStore.Holds property
  stacked : ∀ slot search, searcher.searches slot = some search → Stacked property search

/-- The property holds of all addresses that requests are sent to. -/
def Sends (property : Address → Prop) (outputs : List SearchOutput) : Prop :=
  ∀ address txid target, .request address txid target ∈ outputs →
    property address ∧ txid.length ≤ 8

/-- A call that keeps the property: whatever is kept or sent to has it. -/
def Keeps (property : Address → Prop) (result : Searcher × List SearchOutput) : Prop :=
  result.1.Holds property ∧ Sends property result.2

omit [AddressCalc] in
theorem Stacked.add (stacked : Stacked property search) (given : property addr)
    (adds : SearchStore.addNodeToSearch addr search = some next) : Stacked property next := by
  rw [SearchStore.addNodeToSearch_eq] at adds
  split_ifs at adds
  cases adds
  intro other inside
  rcases List.mem_cons.mp inside with rfl | old
  · exact given
  · exact stacked other ((SearchStore.staying_sublist search).subset old)

omit [AddressCalc] in
theorem Stacked.getD (stacked : Stacked property search) (given : property addr) :
    Stacked property ((SearchStore.addNodeToSearch addr search).getD search) := by
  cases adds : SearchStore.addNodeToSearch addr search with
  | none => exact stacked
  | some next => exact stacked.add given adds

theorem Holds.withNodeStore (holds : searcher.Holds property) (table : store.Holds property) :
    (searcher.withNodeStore store).Holds property :=
  ⟨table, holds.stacked⟩

theorem Holds.withSearch {found : Option Search} (holds : searcher.Holds property)
    (stacked : ∀ search, found = some search → Stacked property search) :
    (searcher.withSearch slot found).Holds property := by
  refine ⟨holds.table, fun other search occupied => ?_⟩
  rw [Searcher.withSearch] at occupied
  dsimp only at occupied
  by_cases same : other = slot
  · subst same
    rw [Function.update_self] at occupied
    exact stacked search occupied
  · rw [Function.update_of_ne same] at occupied
    exact holds.stacked other search occupied

theorem Holds.endSearch (holds : searcher.Holds property) :
    Keeps property (searcher.endSearch slot search) := by
  refine ⟨holds.withSearch fun search impossible => ?_, fun address txid target sent => ?_⟩
  · cases impossible
  rw [Searcher.endSearch] at sent
  split_ifs at sent <;> simp at sent

theorem betterPath_of_lasting (lasting : Address.Lasting property) (given : property address)
    (filled : address.resolved = address) (table : store.Holds property) :
    property (betterPath address store) := by
  rw [betterPath]
  cases best : store.getBest address with
  | none => exact given
  | some node =>
      dsimp only
      split_ifs with shorter
      · rcases table.getBest best with ⟨held, resolved⟩
        exact lasting.exchanged given held filled resolved shorter.1
      · exact given

/-- The next node that is asked comes from the stack. -/
theorem Holds.searchStep (lasting : Address.Lasting property) (holds : searcher.Holds property)
    (stacked : Stacked property search) :
    Keeps property (searcher.searchStep chance slot search) := by
  rw [Searcher.searchStep]
  cases stack : search.searchStack with
  | nil =>
      simp only [SearchStore.getNextNode, stack]
      exact holds.endSearch
  | cons first rest =>
      simp only [SearchStore.getNextNode, stack]
      split_ifs with many
      · exact holds.endSearch
      · have given : property first := stacked first (stack ▸ List.mem_cons_self)
        refine ⟨holds.withSearch fun next same => ?_, fun address txid target sent => ?_⟩
        · cases same
          exact fun addr inside => stacked addr (stack ▸ List.mem_cons_of_mem _ inside)
        · simp only [Function.update_self, List.mem_singleton, SearchOutput.request.injEq] at sent
          rw [sent.1, sent.2.1]
          exact ⟨betterPath_of_lasting lasting (lasting.resolved given)
            (Address.resolved_resolved first) holds.table, le_rfl⟩

theorem Holds.searchRequestTimeout (lasting : Address.Lasting property)
    (holds : searcher.Holds property) (occupied : searcher.searches slot = some search) :
    Keeps property (searcher.searchRequestTimeout chance slot search) := by
  have table : (punishSearched chance.rand
      (search.nodesAsked search.callbackContext.lastNodeCalled).address.path
      searcher.routerModule.nodeStore).Holds property := by
    rw [punishSearched]
    split
    · exact holds.table.updateReach _ _
    · exact holds.table
  exact (holds.withNodeStore table).searchStep lasting (holds.stacked slot search occupied)

theorem stacked_stocked {id : ℕ} {target : Address} {hasCallback : Bool}
    (table : store.Holds property) : Stacked property (stocked id target hasCallback store) := by
  have inside : ∀ node ∈ store.getClosestNodes target none K true Version.CURRENT_PROTOCOL,
      property node.address := fun node member => table.getClosestNodes member
  have empty : Stacked property (newSearch id target hasCallback) :=
    fun addr impossible => absurd impossible List.not_mem_nil
  unfold stocked
  generalize store.getClosestNodes target none K true Version.CURRENT_PROTOCOL = nodes at inside
  generalize newSearch id target hasCallback = search at empty
  induction nodes generalizing search with
  | nil => exact empty
  | cons node nodes ih =>
      rw [List.forall_mem_cons] at inside
      exact ih inside.2 _ (empty.getD inside.1)

theorem Holds.beginSearch {id : ℕ} {target : Address} {hasCallback : Bool}
    (holds : searcher.Holds property)
    (begins : searcher.beginSearch chance id target hasCallback = .ok (some (later, outputs))) :
    Keeps property (later, outputs) := by
  unfold Searcher.beginSearch at begins
  cases free : SearchStore.freeSlot searcher.searches with
  | none => simp [free] at begins
  | some slot =>
      simp only [free] at begins
      split_ifs at begins with empty
      · cases begins
      generalize first : SearchStore.getNextNode slot chance.now chance.magic _ = found at begins
      have first : SearchStore.getNextNode slot chance.now chance.magic
        (stocked id target hasCallback searcher.routerModule.nodeStore) = found := first
      have stacked := @stacked_stocked _ property _ id target hasCallback holds.table
      generalize stocked id target hasCallback searcher.routerModule.nodeStore = search at *
      cases stack : search.searchStack with
      | nil =>
          simp only [SearchStore.getNextNode, stack] at first
          simp [← first] at begins
      | cons address rest =>
          simp only [SearchStore.getNextNode, stack] at first
          simp only [← first, Except.ok.injEq, Option.some.injEq, Prod.mk.injEq] at begins
          rcases begins with ⟨rfl, rfl⟩
          refine ⟨holds.withSearch fun next same => ?_, fun other txid aimed sent => ?_⟩
          · cases same
            exact fun addr inside => stacked addr (stack ▸ List.mem_cons_of_mem _ inside)
          · simp only [Function.update_self, List.mem_singleton, SearchOutput.request.injEq] at sent
            rw [sent.1, sent.2.1]
            exact ⟨stacked address (stack ▸ List.mem_cons_self), le_rfl⟩

/-! ## Replies -/

/-- The property holds of all nodes that a reply tells, whoever it is told to. -/
def Tells (property : Address → Prop) (reply : SearchReply) : Prop :=
  ∀ own nodes i addr, reply.nodes = some nodes → SERIALIZED_SIZE ∣ i → i < nodes.length →
    hear own reply.address nodes i = .ok (.told addr) → property addr

theorem Stacked.consider {reading : Reading} {state : Absorbed}
    (stacked : Stacked property state.search) (given : property addr)
    (table : store.Holds property) :
    (consider reading addr store state).nodeStore = store ∧
      Stacked property (consider reading addr store state).search := by
  have found : property (candidate addr store) := by
    rw [candidate]
    cases best : store.getBest addr with
    | none => exact given
    | some node => exact (table.getBest best).1
  rw [Searcher.consider]
  split_ifs with noise
  · exact ⟨rfl, stacked⟩
  · cases adds : SearchStore.addNodeToSearch (candidate addr store) state.search with
    | none => exact ⟨rfl, stacked⟩
    | some next => exact ⟨rfl, stacked.add found adds⟩

/-- What `handleReply` has taken up -/
structure Taken (property : Address → Prop) (state : Absorbed) : Prop where
  table : state.nodeStore.Holds property
  stacked : Stacked property state.search

theorem Taken.turn {reading : Reading} {i : ℕ} {state further : Absorbed}
    (lasting : Address.Lasting property) (taken : Taken property state)
    (told : ∀ addr, hear reading.own reading.sender reading.nodes i = .ok (.told addr) →
      property addr)
    (turns : turn reading i state = .ok (some further)) : Taken property further := by
  rw [Searcher.turn, Checked.bind_eq_ok] at turns
  rcases turns with ⟨heard, hears, turns⟩
  cases heard with
  | skipped =>
      cases turns
      exact taken
  | looped path =>
      cases turns
      exact ⟨taken.table.brokenPath path, taken.stacked⟩
  | garbage => cases turns
  | told addr =>
      simp only [Checked.bind_eq_ok, Except.ok.injEq, Option.some.injEq] at turns
      rcases turns with ⟨version, -, store, inserts, rfl⟩
      have given := told addr hears
      have table : store.Holds property := by
        apply taken.table.addNode (lasting.resolved given)
        rw [insertTold] at inserts
        cases adds : state.nodeStore.addNode addr 0 version with
        | node index after =>
            rw [adds] at inserts
            cases inserts
            rfl
        | null after =>
            rw [adds] at inserts
            cases inserts
            rfl
        | aborted =>
            rw [adds] at inserts
            cases inserts
      rcases taken.stacked.consider given table with ⟨same, stacked⟩
      exact ⟨same.symm ▸ table, stacked⟩

theorem Taken.absorbReply {asked : SearchStore.Asked} {nodes : List (BitVec 8)}
    {absorbed : Absorbed} (lasting : Address.Lasting property)
    (table : store.Holds property) (stacked : Stacked property asked.search)
    (tells : Tells property reply) (gives : reply.nodes = some nodes)
    (absorbs : absorbReply reply asked nodes store = .ok absorbed) : Taken property absorbed := by
  rcases comes_of_absorbReply absorbs with ⟨versions, last, comes, rfl⟩
  clear absorbs
  induction comes with
  | initial starts =>
      rw [starts]
      exact ⟨table, stacked⟩
  | @step before after event earlier met taken ih =>
      refine ih.turn lasting (fun addr hears => ?_) taken.2.1
      exact tells _ nodes before.i addr gives (Comes.place earlier) taken.1 hears

theorem holds_responseFromNode {first : RouterModule.Chance} {node : ℕ} {lag : BitVec 32}
    (table : store.Holds property) :
    (RouterModule.responseFromNode first node lag store).Holds property := by
  rw [RouterModule.responseFromNode]
  split_ifs
  · exact table.updateReach _ _
  · exact table

theorem holds_handleTid {first : RouterModule.Chance} {plain : RouterModule.Reply} {node : ℕ}
    {routerModule : RouterModule} (table : routerModule.nodeStore.Holds property) :
    (RouterModule.handleTid first plain node routerModule).routerModule.nodeStore.Holds
      property := by
  have answered (slot : BitVec 8) : (RouterModule.handlePong first plain node slot
      routerModule).routerModule.nodeStore.Holds property := by
    rw [RouterModule.handlePong]
    split_ifs with inside
    · cases routerModule.pings ⟨slot.toNat, inside⟩ with
      | none => exact table
      | some ping => exact holds_responseFromNode table
    · exact table
  unfold RouterModule.handleTid
  split
  · exact table
  · split
    · exact answered _
    · split
      · split_ifs <;> exact table
      · exact table

/-- What a reply did for a search was sent to where the property holds. -/
def Advances (property : Address → Prop) (replied : Replied) : Prop :=
  replied.searcher.Holds property ∧
    ∀ id outputs, replied.advanced = some (id, outputs) → Sends property outputs

theorem Holds.proceed {asked : SearchStore.Asked} {results : List SearchOutput}
    (lasting : Address.Lasting property) (holds : searcher.Holds property)
    (stacked : Stacked property search) (plain : ∀ output ∈ results, output = .result) :
    Advances property (searcher.proceed chance asked results search) := by
  have stepped := @Holds.searchStep _ property searcher chance asked.slot search lasting holds
    stacked
  refine ⟨stepped.1, fun id outputs same address txid target sent => ?_⟩
  rw [Searcher.proceed] at same
  cases same
  rcases List.mem_append.mp sent with inside | inside
  · cases plain _ inside
  · exact stepped.2 address txid target inside

theorem holds_handleExpected {node : ℕ} {asked : SearchStore.Asked} {replied : Replied}
    (lasting : Address.Lasting property) (holds : searcher.Holds property)
    (stacked : Stacked property asked.search) (tells : Tells property reply)
    (handles : handleExpected chance reply node asked searcher = .ok replied) :
    Advances property replied := by
  have table := @holds_responseFromNode _ property _ chance.toChance node
    ((chance.now - asked.node.timeOfRequest).setWidth 32) holds.table
  rw [handleExpected] at handles
  cases gives : reply.nodes with
  | none =>
      simp only [gives, Except.ok.injEq] at handles
      subst handles
      exact (holds.withNodeStore table).proceed lasting stacked (by simp)
  | some nodes =>
      simp only [gives] at handles
      rcases Checked.bind_eq_ok.mp handles with ⟨absorbed, absorbs, ends⟩
      cases ends
      have taken := Taken.absorbReply lasting table stacked tells gives absorbs
      refine (holds.withNodeStore taken.table).proceed lasting taken.stacked ?_
      intro output inside
      split_ifs at inside
      · exact List.mem_singleton.mp inside
      · exact absurd inside List.not_mem_nil

/-- A reply is taken up from a sender that has the property and tells only nodes that have it. -/
theorem Holds.handleReply {replied : Replied} (lasting : Address.Lasting property)
    (holds : searcher.Holds property) (sender : property reply.address)
    (tells : Tells property reply)
    (handles : handleReply chance reply searcher = .ok replied) : Advances property replied := by
  unfold Searcher.handleReply at handles
  cases found : searcher.routerModule.nodeStore.getNodeByNetworkAddr chance.rand
      reply.address.path with
  | none =>
      simp only [found, Except.ok.injEq] at handles
      exact handles ▸ ⟨holds, fun id outputs impossible => nomatch impossible⟩
  | some node =>
      simp only [found] at handles
      split_ifs at handles with other
      · simp only [Except.ok.injEq] at handles
        exact handles ▸ ⟨holds, fun id outputs impossible => nomatch impossible⟩
      cases adds : searcher.routerModule.nodeStore.addNode reply.address 2
          (senderVersion reply.toReply) with
      | null after => simp [adds] at handles
      | aborted => simp [adds] at handles
      | node added after =>
          have table : after.Holds property :=
            holds.table.addNode (lasting.resolved sender) (by rw [adds]; rfl)
          have kept : Holds property
              { searcher with routerModule := { searcher.routerModule with nodeStore := after } } :=
            ⟨table, holds.stacked⟩
          simp only [adds] at handles
          split_ifs at handles with toSearch
          · rw [(handleTid_toSearch toSearch).1] at handles
            unfold handleSearchReply at handles
            cases finds : reply.txid.bind fun tid =>
                SearchStore.getNode tid searcher.searches with
            | none =>
                simp only [finds, Except.ok.injEq] at handles
                subst handles
                exact ⟨kept, fun id outputs impossible => nomatch impossible⟩
            | some asked =>
                simp only [finds] at handles
                split_ifs at handles with same
                · rcases Option.bind_eq_some_iff.mp finds with ⟨txid, -, present⟩
                  have stacked := holds.stacked asked.slot asked.search
                    (SearchStore.getNode_eq_some present).1
                  exact holds_handleExpected lasting kept stacked tells handles
                · simp only [Except.ok.injEq] at handles
                  subst handles
                  exact ⟨kept, fun id outputs impossible => nomatch impossible⟩
          · simp only [Except.ok.injEq] at handles
            subst handles
            exact ⟨⟨holds_handleTid table, holds.stacked⟩,
              fun id outputs impossible => nomatch impossible⟩

end Searcher

end Cjdns
