import Cjdns.Dht.NodeCollector

/-!
# Answering queries

`NodeStore_getClosestNodes` collects the nodes with which a query is answered. The
interface and the version of the one who asked are respected. The parameter
`allowNodesFartherThanUs` is not: the collector is built as if it were true.
-/

namespace Cjdns

variable [AddressCalc]

namespace LinkStateNodeCollector

open NodeCollector (Element)

theorem search_le (entry : Entry) (distance : BitVec 32) (nodes : List Element) (i found : ℕ) :
    (search entry distance nodes i found).1 ≤ i + nodes.length := by
  induction nodes generalizing i found with
  | nil => simp [search]
  | cons element rest ih =>
      simp only [search, List.length_cons]
      split
      · split
        · simp
        · exact le_trans (ih _ _) (le_of_eq (by omega))
      · split
        · simp
        · exact le_trans (ih _ _) (le_of_eq (by omega))

theorem length_moveDown {nodes : List Element} {count : ℕ} (inside : count < nodes.length) :
    (moveDown nodes count).length = nodes.length := by
  simp only [moveDown, List.length_append, List.length_take, List.length_drop]
  omega

theorem mem_of_mem_moveDown {nodes : List Element} {count : ℕ} {element : Element}
    (inside : element ∈ moveDown nodes count) : element ∈ nodes := by
  rcases List.mem_append.mp inside with moved | kept
  · exact List.mem_of_mem_drop (List.mem_of_mem_take moved)
  · exact List.mem_of_mem_drop kept

/-- The array keeps its length. -/
theorem length_addNode (entry : Entry) (collector : NodeCollector) :
    (addNode entry collector).nodes.length = collector.nodes.length := by
  simp only [addNode]
  split
  · have bound := search_le entry
      (nodeDistance collector.targetPrefix collector.targetAddress entry) collector.nodes 0 0
    generalize search entry _ collector.nodes 0 0 = result at bound ⊢
    rcases result with ⟨i, found⟩
    simp only [zero_add] at bound
    dsimp only
    by_cases won : i > 0
    · rw [if_pos won, List.length_set]
      split
      · rfl
      · split
        · exact length_moveDown (by omega)
        · rfl
    · rw [if_neg won]
  · rfl

/-- An element of the array was there before, or it holds the node that is added. -/
theorem mem_addNode {entry : Entry} {collector : NodeCollector} {element : Element}
    (inside : element ∈ (addNode entry collector).nodes) :
    element ∈ collector.nodes ∨ element.node = some entry ∧
      nodeDistance collector.targetPrefix collector.targetAddress entry <
        collector.thisNodeDistance := by
  simp only [addNode] at inside
  split at inside
  · rename_i near
    generalize search entry _ collector.nodes 0 0 = result at inside
    rcases result with ⟨i, found⟩
    dsimp only at inside
    by_cases won : i > 0
    · rw [if_pos won] at inside
      rcases List.mem_or_eq_of_mem_set inside with old | new
      · left
        split at old
        · exact old
        · split at old
          · exact mem_of_mem_moveDown old
          · exact old
      · right
        rw [new]
        exact ⟨rfl, near⟩
    · rw [if_neg won] at inside
      exact Or.inl inside
  · exact Or.inl inside

@[simp]
theorem addNode_thisNodeDistance (entry : Entry) (collector : NodeCollector) :
    (addNode entry collector).thisNodeDistance = collector.thisNodeDistance := by
  simp only [addNode]
  split
  · split <;> rfl
  · rfl

@[simp]
theorem addNode_targetPrefix (entry : Entry) (collector : NodeCollector) :
    (addNode entry collector).targetPrefix = collector.targetPrefix := by
  simp only [addNode]
  split
  · split <;> rfl
  · rfl

@[simp]
theorem addNode_targetAddress (entry : Entry) (collector : NodeCollector) :
    (addNode entry collector).targetAddress = collector.targetAddress := by
  simp only [addNode]
  split
  · split <;> rfl
  · rfl

end LinkStateNodeCollector

namespace NodeStore

/-- The loop of `NodeStore_getClosestNodes` passes over the entry. -/
def skips (requestorsAddress : Option Address) (versionOfRequestingNode : BitVec 32)
    (entry : Entry) : Bool :=
  -- the index is 0 where nobody asked, but then it is not compared
  let index := requestorsAddress.elim 0 getSwitchIndex
  (requestorsAddress.isSome && entry.header.switchIndex == index) ||
    !Version.isCompatible entry.header.version versionOfRequestingNode

/-- The loop of `NodeStore_getClosestNodes` -/
def collectClosest (requestorsAddress : Option Address) (versionOfRequestingNode : BitVec 32)
    (collector : NodeCollector) (entries : List Entry) : NodeCollector :=
  entries.foldl
    (fun collector entry =>
      if skips requestorsAddress versionOfRequestingNode entry then collector
      else LinkStateNodeCollector.addNode entry collector)
    collector

/-- `NodeStore_getClosestNodes`; the nodes of the answer are `synchronized`, those of the
table are left as they are. -/
def getClosestNodes (store : NodeStore) (targetAddress : Address)
    (requestorsAddress : Option Address) (count : ℕ) (_allowNodesFartherThanUs : Bool)
    (versionOfRequestingNode : BitVec 32) : List Node :=
  -- LinkStateNodeCollector strictly requires that allowNodesFartherThanUs be true.
  let collector := NodeCollector.new targetAddress count store.thisNodeAddress true
  let collector :=
    collectClosest requestorsAddress versionOfRequestingNode collector store.entries
  collector.nodes.filterMap fun element => element.node.map (·.synchronized.body)

/-! ## The answer -/

/-- What a collector may hold in the middle of the scan -/
structure Collecting (target : Address) (count : ℕ) (offered : Entry → Prop)
    (collector : NodeCollector) : Prop where
  capacity : collector.nodes.length = count
  targetPrefix : collector.targetPrefix = target.getPrefix
  targetAddress : collector.targetAddress = target.resolved
  thisNodeDistance : collector.thisNodeDistance = UINT32_MAX
  offered : ∀ element ∈ collector.nodes, ∀ entry, element.node = some entry →
    offered entry ∧ entry.collectorDistance target < UINT32_MAX

theorem collecting_new (target : Address) (count : ℕ) (own : Address) (offered : Entry → Prop) :
    Collecting target count offered (NodeCollector.new target count own true) where
  capacity := List.length_replicate
  targetPrefix := rfl
  targetAddress := rfl
  thisNodeDistance := rfl
  offered := by
    intro element inside entry holds
    rw [List.eq_of_mem_replicate inside] at holds
    cases holds

theorem Collecting.addNode {target : Address} {count : ℕ} {offered : Entry → Prop}
    {collector : NodeCollector} (collecting : Collecting target count offered collector)
    {entry : Entry} (allowed : offered entry) :
    Collecting target count offered (LinkStateNodeCollector.addNode entry collector) where
  capacity := (LinkStateNodeCollector.length_addNode entry collector).trans collecting.capacity
  targetPrefix := by simp [collecting.targetPrefix]
  targetAddress := by simp [collecting.targetAddress]
  thisNodeDistance := by simp [collecting.thisNodeDistance]
  offered := by
    intro element inside kept holds
    rcases LinkStateNodeCollector.mem_addNode inside with old | ⟨new, near⟩
    · exact collecting.offered element old kept holds
    · rw [new, Option.some_inj] at holds
      subst holds
      rw [collecting.targetPrefix, collecting.targetAddress, collecting.thisNodeDistance] at near
      exact ⟨allowed, near⟩

theorem Collecting.collectClosest {target : Address} {count : ℕ} {offered : Entry → Prop}
    {requestor : Option Address} {version : BitVec 32} {collector : NodeCollector}
    (collecting : Collecting target count offered collector) {entries : List Entry}
    (allowed : ∀ entry ∈ entries, ¬ skips requestor version entry = true → offered entry) :
    Collecting target count offered
      (NodeStore.collectClosest requestor version collector entries) := by
  induction entries generalizing collector with
  | nil => exact collecting
  | cons entry entries ih =>
      have rest : ∀ other ∈ entries, ¬ skips requestor version other = true → offered other :=
        fun other inside => allowed other (List.mem_cons_of_mem _ inside)
      by_cases skipped : skips requestor version entry = true
      · simpa only [NodeStore.collectClosest, List.foldl_cons, if_pos skipped] using
          ih collecting rest
      · have added := collecting.addNode (allowed entry List.mem_cons_self skipped)
        simpa only [NodeStore.collectClosest, List.foldl_cons, if_neg skipped] using
          ih added rest

theorem skips_eq_false {requestor : Address} {version : BitVec 32} {entry : Entry}
    (kept : ¬ skips (some requestor) version entry = true) :
    getSwitchIndex entry.body.address ≠ getSwitchIndex requestor ∧
      Version.isCompatible entry.header.version version = true := by
  simpa [skips, ← entry.switchIndex_eq] using kept

/-- What holds of every answer to a query -/
structure Answers (store : NodeStore) (target requestor : Address) (count : ℕ)
    (version : BitVec 32) (nodes : List Node) : Prop where
  atMost : nodes.length ≤ count
  near : ∀ node ∈ nodes, node.address.distance target < UINT32_MAX
  elsewhere : ∀ node ∈ nodes, getSwitchIndex node.address ≠ getSwitchIndex requestor
  compatible : ∀ node ∈ nodes, Version.isCompatible node.version version = true

/-- The answer to a query has no node behind the one who asked and none that it cannot talk to. -/
theorem getClosestNodes_answers (store : NodeStore) (target requestor : Address) (count : ℕ)
    (allowNodesFartherThanUs : Bool) (version : BitVec 32) :
    Answers store target requestor count version
      (store.getClosestNodes target (some requestor) count allowNodesFartherThanUs version) := by
  have collecting : Collecting target count
      (fun entry => ¬ skips (some requestor) version entry = true)
      (collectClosest (some requestor) version
        (NodeCollector.new target count store.thisNodeAddress true) store.entries) :=
    (collecting_new ..).collectClosest fun _ _ kept => kept
  have collected : ∀ node ∈ store.getClosestNodes target (some requestor) count
      allowNodesFartherThanUs version, ∃ entry : Entry, node = entry.synchronized.body ∧
        ¬ skips (some requestor) version entry = true ∧
        entry.collectorDistance target < UINT32_MAX := by
    intro node inside
    rcases List.mem_filterMap.mp inside with ⟨element, elementInside, holds⟩
    rcases Option.map_eq_some_iff.mp holds with ⟨entry, kept, rfl⟩
    exact ⟨entry, rfl, collecting.offered element elementInside entry kept⟩
  exact {
    atMost := le_trans (List.length_filterMap_le ..) (le_of_eq collecting.capacity)
    near := by
      intro node inside
      rcases collected node inside with ⟨entry, rfl, _, near⟩
      exact entry.distance_lt_of_collectorDistance_lt near
    elsewhere := by
      intro node inside
      rcases collected node inside with ⟨entry, rfl, kept, _⟩
      exact (skips_eq_false kept).1
    compatible := by
      intro node inside
      rcases collected node inside with ⟨entry, rfl, kept, _⟩
      exact (skips_eq_false kept).2 }

end NodeStore

end Cjdns
