import Cjdns.Dht.NodeCollector

/-!
# Choosing the next hop

`NodeStore_getBest` takes the best node of the table that is closer to the target
than this node, by the distance of `LinkStateNodeCollector`. As the prefix distance
gets smaller at every hop, no chain of such choices comes back to a router.

What is closest is not always found. A node with the prefix of the target counts as
one away, whereas the distance of this node itself is not corrected in the same way.
A router that shares the prefix of the target finds no way at all to it, even if the
target is in its table.
-/

namespace Cjdns

variable [AddressCalc]

namespace NodeStore

/-- The collector with which `NodeStore_getBest` begins -/
def bestCollector (targetAddress : Address) (store : NodeStore) : NodeCollector :=
  let targetPrefix := targetAddress.getPrefix
  { targetPrefix := targetPrefix
    targetAddress := targetAddress.resolved
    thisNodeDistance := store.thisNodeAddress.getPrefix ^^^ targetPrefix
    nodes := [NodeCollector.Element.unused] }

/-- The loop of `NodeStore_getBest` -/
def collectBest (collector : NodeCollector) (entries : List Entry) : NodeCollector :=
  entries.foldl
    (fun collector entry =>
      if entry.header.reach ≠ 0 then LinkStateNodeCollector.addNode entry collector else collector)
    collector

/-- `NodeStore_getBest`; the node that is returned is `synchronized`, the table is left as
it is. -/
def getBest (targetAddress : Address) (store : NodeStore) : Option Node :=
  let collector := collectBest (bestCollector targetAddress store) store.entries
  (collector.nodes.head?.bind (·.node)).map (·.synchronized.body)

/-- `RouterModule_lookup`; the key of the address on the stack is not initialized. -/
def lookup (targetAddr : BitVec 128) (key : BitVec 256) (path : BitVec 64) (store : NodeStore) :
    Option Node :=
  getBest { ip6 := targetAddr, key := key, path := path } store

end NodeStore

/-! ## The choice -/

namespace Entry

/-- The node is in use, and it is the target. -/
def Exact (target : Address) (entry : Entry) : Prop :=
  entry.header.reach ≠ 0 ∧ entry.body.address.ip6 = target.resolved.ip6

/-- The node is in use, and its prefix is closer to the target than this node's. -/
def Admissible (store : NodeStore) (target : Address) (entry : Entry) : Prop :=
  entry.header.reach ≠ 0 ∧
    entry.body.address.distance target < store.thisNodeAddress.distance target

/-- The value by which nodes that are not the target are compared -/
def pathValue (entry : Entry) : ℕ :=
  64 - Bits.log2x64 entry.body.address.path

end Entry

namespace NodeStore

/-- `getBest` may take the entry: it offers it to the collector, whose gate lets it through. -/
def isCandidate (target : Address) (store : NodeStore) (entry : Entry) : Bool :=
  decide (entry.header.reach ≠ 0 ∧
    entry.collectorDistance target < store.thisNodeAddress.distance target)

theorem isCandidate_iff {target : Address} {store : NodeStore} {entry : Entry} :
    isCandidate target store entry = true ↔ entry.header.reach ≠ 0 ∧
      entry.collectorDistance target < store.thisNodeAddress.distance target :=
  decide_eq_true_iff

/-- The order in which `getBest` prefers entries -/
def preference (target : Address) (entry : Entry) : Bool ×ₗ ℕ :=
  LinkStateNodeCollector.rank target.getPrefix target.resolved entry

/-- The collector of `getBest` in the middle of the scan -/
def holding (target : Address) (store : NodeStore) (held : Option Entry) : NodeCollector :=
  { bestCollector target store with
    nodes := [LinkStateNodeCollector.holding target.getPrefix target.resolved held] }

theorem addNode_holding (target : Address) (store : NodeStore) (entry : Entry)
    (held : Option Entry) :
    LinkStateNodeCollector.addNode entry (holding target store held) =
      holding target store
        (if entry.collectorDistance target < store.thisNodeAddress.distance target then
          Selection.keepBest (preference target) held entry
        else held) :=
  LinkStateNodeCollector.addNode_single entry (holding target store held) held rfl

/-- The loop keeps the candidate that is preferred, the last of them if there are several. -/
theorem collectBest_holding (target : Address) (store : NodeStore) (entries : List Entry)
    (held : Option Entry) :
    collectBest (holding target store held) entries =
      holding target store
        ((entries.filter (isCandidate target store)).foldl
          (Selection.keepBest (preference target)) held) := by
  induction entries generalizing held with
  | nil => rfl
  | cons entry entries ih =>
      by_cases used : entry.header.reach ≠ 0
      · have step : collectBest (holding target store held) (entry :: entries) =
            collectBest (LinkStateNodeCollector.addNode entry (holding target store held))
              entries := by
          simp only [collectBest, List.foldl_cons, if_pos used]
        rw [step, addNode_holding, ih]
        by_cases near : entry.collectorDistance target < store.thisNodeAddress.distance target
        · rw [if_pos near, List.filter_cons_of_pos (isCandidate_iff.mpr ⟨used, near⟩),
            List.foldl_cons]
        · have passed : ¬ isCandidate target store entry = true := by
            intro candidate
            exact near (isCandidate_iff.mp candidate).2
          rw [if_neg near, List.filter_cons_of_neg passed]
      · have step : collectBest (holding target store held) (entry :: entries) =
            collectBest (holding target store held) entries := by
          simp only [collectBest, List.foldl_cons, if_neg used]
        have passed : ¬ isCandidate target store entry = true := by
          intro candidate
          exact used (isCandidate_iff.mp candidate).1
        rw [step, ih, List.filter_cons_of_neg passed]

/-- `getBest` is the preferred candidate, with the reach and the version of its header. -/
theorem getBest_eq (target : Address) (store : NodeStore) :
    getBest target store =
      ((store.entries.filter (isCandidate target store)).reverse.argmax (preference target)).map
        (·.synchronized.body) := by
  have start : bestCollector target store = holding target store none := rfl
  rw [← Selection.foldl_keepBest]
  simp only [getBest, start, collectBest_holding]
  generalize (store.entries.filter (isCandidate target store)).foldl
    (Selection.keepBest (preference target)) none = held
  cases held <;> rfl

/-- What `getBest` returns is the candidate that no other is preferred to. -/
theorem getBest_some {target : Address} {store : NodeStore} {node : Node}
    (best : getBest target store = some node) :
    ∃ entry ∈ store.entries, isCandidate target store entry = true ∧
      node = entry.synchronized.body ∧
      ∀ other ∈ store.entries, isCandidate target store other = true →
        preference target other ≤ preference target entry := by
  rw [getBest_eq, Option.map_eq_some_iff] at best
  rcases best with ⟨entry, found, rfl⟩
  have member := List.mem_filter.mp (List.mem_reverse.mp (List.argmax_mem found))
  refine ⟨entry, member.1, member.2, rfl, ?_⟩
  intro other inside candidate
  apply List.le_of_mem_argmax _ found
  exact List.mem_reverse.mpr (List.mem_filter.mpr ⟨inside, candidate⟩)

/-- `getBest` fails only if there is no candidate. -/
theorem getBest_none {target : Address} {store : NodeStore} (none : getBest target store = none) :
    ∀ entry ∈ store.entries, ¬ isCandidate target store entry = true := by
  rw [getBest_eq, Option.map_eq_none_iff, List.argmax_eq_none, List.reverse_eq_nil_iff,
    List.filter_eq_nil_iff] at none
  exact none

/-- The next hop is in use and closer to the target. -/
theorem getBest_progress {target : Address} {store : NodeStore} {node : Node}
    (best : getBest target store = some node) :
    node.reach ≠ 0 ∧ node.address.distance target < store.thisNodeAddress.distance target := by
  rcases getBest_some best with ⟨entry, _, candidate, rfl, _⟩
  rcases isCandidate_iff.mp candidate with ⟨used, near⟩
  exact ⟨used, entry.distance_lt_of_collectorDistance_lt near⟩

/-! ## Chains of hops -/

/-- The node that one router chooses for the target is the other router. -/
def Hop (target : Address) (here next : NodeStore) : Prop :=
  ∃ node, getBest target here = some node ∧
    node.address.resolved.ip6 = next.thisNodeAddress.resolved.ip6

theorem Hop.closer {target : Address} {here next : NodeStore} (hop : Hop target here next) :
    next.thisNodeAddress.distance target < here.thisNodeAddress.distance target := by
  rcases hop with ⟨node, best, same⟩
  have progress := (getBest_progress best).2
  simp only [Address.distance, Address.getPrefix] at progress ⊢
  rw [← same]
  exact progress

/-- Along a chain of hops the distance to the target gets smaller all the time. -/
theorem pairwise_closer {target : Address} {path : List NodeStore}
    (chain : path.IsChain (Hop target)) :
    path.Pairwise fun here later => (here.thisNodeAddress.distance target).toNat >
      (later.thisNodeAddress.distance target).toNat := by
  have steps : (path.map fun store => (store.thisNodeAddress.distance target).toNat).IsChain
      (· > ·) := by
    rw [List.isChain_map]
    exact chain.imp fun _ _ hop => BitVec.lt_def.mp hop.closer
  exact List.pairwise_map.mp steps.pairwise

/-- No chain of hops towards one target visits a router twice. -/
theorem chain_nodup {target : Address} {path : List NodeStore}
    (chain : path.IsChain (Hop target)) :
    (path.map (·.thisNodeAddress.resolved.ip6)).Nodup := by
  rw [List.nodup_iff_pairwise_ne, List.pairwise_map]
  refine (pairwise_closer chain).imp ?_
  intro here later closer same
  simp only [Address.distance, Address.getPrefix, same] at closer
  exact absurd closer (lt_irrefl _)

/-! ## What is found -/

/-- What `getBest` is to do at one router -/
structure ForwardsWell (target : Address) (store : NodeStore) : Prop where
  progress : ∀ node, getBest target store = some node →
    node.reach ≠ 0 ∧ node.address.distance target < store.thisNodeAddress.distance target
  direct : (∃ entry ∈ store.entries, entry.Exact target) →
    ∃ entry ∈ store.entries, entry.Exact target ∧
      getBest target store = some entry.synchronized.body
  shortest : (¬ ∃ entry ∈ store.entries, entry.Exact target) →
    ∀ node, getBest target store = some node →
      ∃ entry ∈ store.entries, entry.Admissible store target ∧ node = entry.synchronized.body ∧
        ∀ other ∈ store.entries, other.Admissible store target →
          other.pathValue ≤ entry.pathValue
  found : getBest target store = none →
    ¬ ∃ entry ∈ store.entries, entry.Exact target ∨ entry.Admissible store target

/-- The corrected distance does not keep out what `getBest` is to find: the target where the
prefix of this node is that of the target, and a collision where it is one away. -/
def Unhidden (target : Address) (store : NodeStore) : Prop :=
  (store.thisNodeAddress.distance target = 0#32 →
    ∀ entry ∈ store.entries, ¬ entry.Exact target) ∧
  (store.thisNodeAddress.distance target = 1#32 →
    (∃ entry ∈ store.entries, entry.Exact target) ∨
    ∀ entry ∈ store.entries, entry.header.reach ≠ 0 →
      entry.body.address.distance target ≠ 0#32)

theorem isCandidate_of_exact {target : Address} {store : NodeStore} {entry : Entry}
    (away : store.thisNodeAddress.distance target ≠ 0#32) (isTarget : entry.Exact target) :
    isCandidate target store entry = true := by
  have zero := (entry.collectorDistance_eq_zero_iff target).mpr isTarget.2
  rw [isCandidate_iff, zero]
  exact ⟨isTarget.1, (BitVec.pos_iff_ne_zero _).mpr away⟩

/-- Unless it is hidden, what is closer than this node is a candidate. -/
theorem isCandidate_of_admissible {target : Address} {store : NodeStore} {entry : Entry}
    (unhidden : Unhidden target store) (missing : ¬ ∃ entry ∈ store.entries, entry.Exact target)
    (inside : entry ∈ store.entries) (admissible : entry.Admissible store target) :
    isCandidate target store entry = true := by
  rcases admissible with ⟨used, near⟩
  rw [isCandidate_iff]
  refine ⟨used, ?_⟩
  rcases entry.collectorDistance_cases target with
    ⟨same, _, _⟩ | ⟨_, zero, collected⟩ | ⟨_, _, collected⟩
  · exact absurd ⟨entry, inside, used, same⟩ missing
  · rw [zero, BitVec.pos_iff_ne_zero] at near
    have notOne : store.thisNodeAddress.distance target ≠ 1#32 := by
      intro one
      rcases unhidden.2 one with present | apart
      · exact missing present
      · exact apart entry inside used zero
    rw [collected, BitVec.lt_def]
    have zeroNat : (store.thisNodeAddress.distance target).toNat ≠ 0 := by
      simpa [← BitVec.toNat_inj] using near
    have oneNat : (store.thisNodeAddress.distance target).toNat ≠ 1 := by
      simpa [← BitVec.toNat_inj] using notOne
    change 1 < _
    omega
  · rw [collected]
    exact near

/-- A match is preferred to what is none, and otherwise the shorter path. -/
theorem preference_le_iff {target : Address} {entry other : Entry} :
    preference target entry ≤ preference target other ↔
      (entry.body.address.ip6 ≠ target.resolved.ip6 ∧
          other.body.address.ip6 = target.resolved.ip6) ∨
        ((entry.body.address.ip6 = target.resolved.ip6 ↔
            other.body.address.ip6 = target.resolved.ip6) ∧
          LinkStateNodeCollector.getValue entry ≤ LinkStateNodeCollector.getValue other) := by
  rw [← entry.collectorDistance_eq_zero_iff, ← other.collectorDistance_eq_zero_iff, ne_eq,
    ← entry.collectorDistance_eq_zero_iff]
  have unfolded (one : Entry) : preference target one =
      toLex (decide (one.collectorDistance target = 0#32),
        LinkStateNodeCollector.getValue one) := rfl
  rw [unfolded, unfolded, Prod.Lex.toLex_le_toLex]
  by_cases mine : entry.collectorDistance target = 0#32 <;>
    by_cases its : other.collectorDistance target = 0#32 <;> simp [mine, its]

theorem getValue_of_used {entry : Entry} (used : entry.header.reach ≠ 0) :
    LinkStateNodeCollector.getValue entry = entry.pathValue :=
  if_pos used

/-- Nothing is preferred to a match but a match. -/
theorem exact_of_preference_le {target : Address} {entry other : Entry}
    (isTarget : entry.Exact target) (used : other.header.reach ≠ 0)
    (preferred : preference target entry ≤ preference target other) : other.Exact target := by
  refine ⟨used, ?_⟩
  rcases preference_le_iff.mp preferred with ⟨_, same⟩ | ⟨agree, _⟩
  · exact same
  · exact agree.mp isTarget.2

theorem exact_of_unhidden {target : Address} {store : NodeStore}
    (unhidden : Unhidden target store) (present : ∃ entry ∈ store.entries, entry.Exact target) :
    ∃ entry ∈ store.entries, entry.Exact target ∧
      getBest target store = some entry.synchronized.body := by
  rcases present with ⟨entry, inside, isTarget⟩
  have away : store.thisNodeAddress.distance target ≠ 0#32 := by
    intro zero
    exact unhidden.1 zero entry inside isTarget
  have candidate := isCandidate_of_exact away isTarget
  cases best : getBest target store with
  | none => exact absurd candidate (getBest_none best entry inside)
  | some node =>
      rcases getBest_some best with ⟨kept, keptInside, keptCandidate, rfl, preferred⟩
      refine ⟨kept, keptInside, ?_, rfl⟩
      exact exact_of_preference_le isTarget (isCandidate_iff.mp keptCandidate).1
        (preferred entry inside candidate)

theorem shortest_of_unhidden {target : Address} {store : NodeStore} {node : Node}
    (unhidden : Unhidden target store) (missing : ¬ ∃ entry ∈ store.entries, entry.Exact target)
    (best : getBest target store = some node) :
    ∃ entry ∈ store.entries, entry.Admissible store target ∧ node = entry.synchronized.body ∧
      ∀ other ∈ store.entries, other.Admissible store target →
        other.pathValue ≤ entry.pathValue := by
  have progress := getBest_progress best
  rcases getBest_some best with ⟨entry, inside, candidate, rfl, preferred⟩
  refine ⟨entry, inside, progress, rfl, ?_⟩
  intro other otherInside admissible
  have used := (isCandidate_iff.mp candidate).1
  have otherCandidate := isCandidate_of_admissible unhidden missing otherInside admissible
  rcases preference_le_iff.mp (preferred other otherInside otherCandidate) with
    ⟨_, same⟩ | ⟨_, shorter⟩
  · exact absurd ⟨entry, inside, used, same⟩ missing
  · rwa [getValue_of_used used, getValue_of_used admissible.1] at shorter

theorem found_of_unhidden {target : Address} {store : NodeStore}
    (unhidden : Unhidden target store) (failed : getBest target store = none) :
    ¬ ∃ entry ∈ store.entries, entry.Exact target ∨ entry.Admissible store target := by
  have missing : ¬ ∃ entry ∈ store.entries, entry.Exact target := by
    intro present
    rcases exact_of_unhidden unhidden present with ⟨_, _, _, best⟩
    rw [failed] at best
    cases best
  rintro ⟨entry, inside, isTarget | admissible⟩
  · exact missing ⟨entry, inside, isTarget⟩
  · exact getBest_none failed entry inside
      (isCandidate_of_admissible unhidden missing inside admissible)

/-- One away from the target, only a match is a candidate. -/
theorem exact_of_isCandidate {target : Address} {store : NodeStore} {entry : Entry}
    (one : store.thisNodeAddress.distance target = 1#32)
    (candidate : isCandidate target store entry = true) : entry.Exact target := by
  rcases isCandidate_iff.mp candidate with ⟨used, near⟩
  refine ⟨used, (entry.collectorDistance_eq_zero_iff target).mp ?_⟩
  rw [one, BitVec.lt_def] at near
  change _ < 1 at near
  apply BitVec.eq_of_toNat_eq
  change _ = 0
  omega

theorem unhidden_of_forwardsWell {target : Address} {store : NodeStore}
    (well : ForwardsWell target store) : Unhidden target store := by
  constructor
  · intro zero entry inside isTarget
    rcases well.direct ⟨entry, inside, isTarget⟩ with ⟨_, _, _, best⟩
    have closer := (getBest_progress best).2
    rw [zero, BitVec.lt_def] at closer
    exact absurd closer (Nat.not_lt_zero _)
  · intro one
    by_cases present : ∃ entry ∈ store.entries, entry.Exact target
    · exact Or.inl present
    right
    intro entry inside used zero
    have admissible : entry.Admissible store target := by
      refine ⟨used, ?_⟩
      rw [zero, one]
      decide
    cases best : getBest target store with
    | none => exact well.found best ⟨entry, inside, Or.inr admissible⟩
    | some node =>
        rcases getBest_some best with ⟨kept, keptInside, candidate, _, _⟩
        exact present ⟨kept, keptInside, exact_of_isCandidate one candidate⟩

theorem forwardsWell_iff_unhidden (target : Address) (store : NodeStore) :
    ForwardsWell target store ↔ Unhidden target store := by
  constructor
  · exact unhidden_of_forwardsWell
  · intro unhidden
    exact {
      progress := fun _ best => getBest_progress best
      direct := exact_of_unhidden unhidden
      shortest := fun missing _ best => shortest_of_unhidden unhidden missing best
      found := found_of_unhidden unhidden }

/-- Greedy forwarding towards a target in a network of routers -/
structure GreedyForwarding (target : Address) (routers : Set NodeStore) : Prop where
  loopFree : ∀ path : List NodeStore, (∀ store ∈ path, store ∈ routers) →
    path.IsChain (Hop target) → (path.map (·.thisNodeAddress.resolved.ip6)).Nodup
  forwards : ∀ store ∈ routers, ForwardsWell target store

/-- Greedy forwarding works for a target unless a router hides it or a way to it from itself. -/
theorem greedyForwarding_iff (target : Address) (routers : Set NodeStore) :
    GreedyForwarding target routers ↔ ∀ store ∈ routers, Unhidden target store := by
  constructor
  · intro greedy store inside
    exact (forwardsWell_iff_unhidden target store).mp (greedy.forwards store inside)
  · intro unhidden
    exact {
      loopFree := fun _ _ chain => chain_nodup chain
      forwards := fun store inside =>
        (forwardsWell_iff_unhidden target store).mpr (unhidden store inside) }

/-- A target one hop away that shares the prefix of the router -/
def namesake : Address :=
  { ip6 := 0xFC000000000000000000000000000002, key := 2, path := 0x13 }

/-- A router with one entry, the target itself -/
def besideNamesake : NodeStore where
  thisNodeAddress := { ip6 := 0xFC000000000000000000000000000001, key := 1, path := 1 }
  capacity := 1
  entries := [(Entry.replaceNode { reach := 0, version := 0, address := namesake }
    namesake).withReach 1]
  labelSum := 4

omit [AddressCalc] in
/-- The router does not find the way to the target that is in its table. -/
theorem namesake_not_found :
    letI : AddressCalc := ⟨fun _ => 0⟩
    ¬ GreedyForwarding namesake {besideNamesake} := by
  let : AddressCalc := ⟨fun _ => 0⟩
  intro greedy
  have well := greedy.forwards besideNamesake rfl
  exact (unhidden_of_forwardsWell well).1 (by decide) _ List.mem_cons_self ⟨by decide, by decide⟩

end NodeStore

end Cjdns
