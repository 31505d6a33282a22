import Cjdns.Dht.NodeStore
import Cjdns.Library.Selection

/-!
# Collecting nodes

`LinkStateNodeCollector_addNode` keeps the best nodes of a scan in an array that is
full from the high end. With one element (`NodeStore_getBest`) it keeps the last of
the entries of highest rank, an exact match before any other, then the shortest path
(`addNode_single`).
-/

namespace Cjdns

variable [AddressCalc]

/-- `UINT32_MAX` -/
abbrev UINT32_MAX : BitVec 32 := BitVec.allOnes 32

/-- `struct NodeCollector_Element`; header and body are pointers to one entry. -/
structure NodeCollector.Element where
  node : Option Entry
  value : ℕ
  distance : BitVec 32

/-- `struct NodeCollector`; the capacity is the length of the array. -/
structure NodeCollector where
  targetPrefix : BitVec 32
  targetAddress : Address
  thisNodeDistance : BitVec 32
  nodes : List NodeCollector.Element

namespace NodeCollector

/-- An element of a new collector -/
def Element.unused : Element :=
  { node := none, value := 0, distance := UINT32_MAX }

/-- `NodeCollector_new` -/
def new (targetAddress : Address) (capacity : ℕ) (thisNodeAddress : Address)
    (allowNodesFartherThanUs : Bool) : NodeCollector :=
  let targetPrefix := targetAddress.getPrefix
  { targetPrefix := targetPrefix
    targetAddress := targetAddress.resolved
    thisNodeDistance :=
      if allowNodesFartherThanUs then UINT32_MAX else thisNodeAddress.getPrefix ^^^ targetPrefix
    nodes := List.replicate capacity Element.unused }

end NodeCollector

namespace LinkStateNodeCollector

open NodeCollector (Element)

/-- `nodeDistance`: a node with the prefix of the target counts as one away unless it is the target. -/
def nodeDistance (targetPrefix : BitVec 32) (targetAddress : Address) (entry : Entry) :
    BitVec 32 :=
  let distance := entry.header.addressPrefix ^^^ targetPrefix
  if distance = 0#32 ∧ entry.body.address.ip6 ≠ targetAddress.ip6 then distance + 1 else distance

/-- `LinkStateNodeCollector_getValue` -/
def getValue (entry : Entry) : ℕ :=
  if entry.header.reach ≠ 0 then 64 - Bits.log2x64 entry.body.address.path else 0

/-- The element at an index after the first holds the same address. -/
def sameAddress (entry : Entry) (i : ℕ) (element : Element) : Bool :=
  match element.node with
  | some other => decide (i > 0) && entry.body.address.ip6 == other.body.address.ip6
  | none => false

/-- The loop over the array: the index at which it ends and `match` -/
def search (entry : Entry) (distance : BitVec 32) : List Element → ℕ → ℕ → ℕ × ℕ
  | [], i, found => (i, found)
  | element :: rest, i, found =>
      if element.distance = 0#32 ↔ distance = 0#32 then
        if getValue entry < element.value then (i, found)
        else search entry distance rest (i + 1) (if sameAddress entry i element then i + 1 else found)
      else if distance ≠ 0#32 then (i, found)
      else search entry distance rest (i + 1) found

/-- `Bits_memmove(nodes, &nodes[1], count)` -/
def moveDown (nodes : List Element) (count : ℕ) : List Element :=
  (nodes.drop 1).take count ++ nodes.drop count

/-- `LinkStateNodeCollector_addNode` -/
def addNode (entry : Entry) (collector : NodeCollector) : NodeCollector :=
  let distance := nodeDistance collector.targetPrefix collector.targetAddress entry
  if distance < collector.thisNodeDistance then
    let (i, found) := search entry distance collector.nodes 0 0
    if i > 0 then
      let nodes :=
        if found > 0 then collector.nodes
        else if i > 1 then moveDown collector.nodes (i - 1) else collector.nodes
      let i := if found > 0 then found else i
      { collector with
        nodes := nodes.set (i - 1)
          { node := some entry, value := getValue entry, distance := distance } }
    else collector
  else collector

end LinkStateNodeCollector

/-! ## Distances -/

/-- The prefix distance of an address to the target -/
def Address.distance (addr target : Address) : BitVec 32 :=
  addr.getPrefix ^^^ target.getPrefix

namespace Entry

/-- The distance of an entry as the collector for a target measures it -/
def collectorDistance (target : Address) (entry : Entry) : BitVec 32 :=
  LinkStateNodeCollector.nodeDistance target.getPrefix target.resolved entry

/-- Only a match has the collector's distance zero, and only a collision of prefixes moves. -/
theorem collectorDistance_cases (target : Address) (entry : Entry) :
    (entry.body.address.ip6 = target.resolved.ip6 ∧ entry.body.address.distance target = 0#32 ∧
        entry.collectorDistance target = 0#32) ∨
      (entry.body.address.ip6 ≠ target.resolved.ip6 ∧
        entry.body.address.distance target = 0#32 ∧ entry.collectorDistance target = 1#32) ∨
      (entry.body.address.ip6 ≠ target.resolved.ip6 ∧
        entry.body.address.distance target ≠ 0#32 ∧
        entry.collectorDistance target = entry.body.address.distance target) := by
  have header : entry.header.addressPrefix ^^^ target.getPrefix =
      entry.body.address.distance target := by
    rw [entry.addressPrefix_eq, Address.distance]
  simp only [collectorDistance, LinkStateNodeCollector.nodeDistance, header]
  by_cases same : entry.body.address.ip6 = target.resolved.ip6
  · have zero : entry.body.address.distance target = 0#32 := by
      have samePrefix : entry.body.address.getPrefix = target.getPrefix := by
        rw [Address.getPrefix, entry.resolved_eq, same, Address.getPrefix]
      rw [Address.distance, samePrefix, BitVec.xor_self]
    simp [same, zero]
  · by_cases zero : entry.body.address.distance target = 0#32
    · simp [same, zero]
    · simp [same, zero]

theorem distance_le_collectorDistance (target : Address) (entry : Entry) :
    entry.body.address.distance target ≤ entry.collectorDistance target := by
  rcases collectorDistance_cases target entry with
    ⟨_, zero, collected⟩ | ⟨_, zero, collected⟩ | ⟨_, _, collected⟩
  · rw [zero, collected]
    exact BitVec.le_refl _
  · rw [zero, collected]
    decide
  · rw [collected]
    exact BitVec.le_refl _

theorem distance_lt_of_collectorDistance_lt {target : Address} {entry : Entry}
    {bound : BitVec 32} (near : entry.collectorDistance target < bound) :
    entry.body.address.distance target < bound := by
  have closer := entry.distance_le_collectorDistance target
  rw [BitVec.le_def] at closer
  rw [BitVec.lt_def] at near ⊢
  omega

theorem collectorDistance_eq_zero_iff (target : Address) (entry : Entry) :
    entry.collectorDistance target = 0#32 ↔ entry.body.address.ip6 = target.resolved.ip6 := by
  rcases collectorDistance_cases target entry with
    ⟨same, _, collected⟩ | ⟨other, _, collected⟩ | ⟨other, away, collected⟩
  · exact iff_of_true collected same
  · rw [collected]
    exact iff_of_false (by decide) other
  · rw [collected]
    exact iff_of_false away other

end Entry

namespace LinkStateNodeCollector

open NodeCollector (Element)

/-! ## A collector of one element -/

/-- What decides between two nodes: a match goes first, then the shorter path -/
def rank (targetPrefix : BitVec 32) (targetAddress : Address) (entry : Entry) : Bool ×ₗ ℕ :=
  toLex (decide (nodeDistance targetPrefix targetAddress entry = 0#32), getValue entry)

/-- The element that holds what a scan has kept -/
def holding (targetPrefix : BitVec 32) (targetAddress : Address) : Option Entry → Element
  | none => Element.unused
  | some entry =>
      { node := some entry
        value := getValue entry
        distance := nodeDistance targetPrefix targetAddress entry }

theorem search_single (entry : Entry) (distance : BitVec 32) (element : Element) :
    search entry distance [element] 0 0 =
      if (element.distance = 0#32 ↔ distance = 0#32) ∧ getValue entry < element.value ∨
          ¬(element.distance = 0#32 ↔ distance = 0#32) ∧ distance ≠ 0#32 then (0, 0)
      else (1, 0) := by
  have first : sameAddress entry 0 element = false := by
    unfold sameAddress
    split <;> rfl
  simp only [search, first, Bool.false_eq_true, if_false]
  by_cases same : element.distance = 0#32 ↔ distance = 0#32
  · by_cases worse : getValue entry < element.value
    · rw [if_pos same, if_pos worse, if_pos (Or.inl ⟨same, worse⟩)]
    · rw [if_pos same, if_neg worse, if_neg (by simp [same, worse])]
  · by_cases far : distance = 0#32
    · rw [if_neg same, if_neg (not_not_intro far), if_neg]
      rintro (⟨agree, _⟩ | ⟨_, near⟩)
      · exact same agree
      · exact near far
    · rw [if_neg same, if_pos far, if_pos (Or.inr ⟨same, far⟩)]

/-- An unused element gives way to every node. -/
theorem search_unused (entry : Entry) (distance : BitVec 32) :
    search entry distance [Element.unused] 0 0 = (1, 0) := by
  have unused : Element.unused.distance ≠ 0#32 := by
    change UINT32_MAX ≠ 0#32
    decide
  rw [search_single, if_neg]
  rintro (⟨_, worse⟩ | ⟨differs, far⟩)
  · exact absurd worse (Nat.not_lt_zero _)
  · exact differs (iff_of_false unused far)

/-- An element in use gives way unless the node ranks below the one that it holds. -/
theorem search_holding (targetPrefix : BitVec 32) (targetAddress : Address) (entry best : Entry) :
    search entry (nodeDistance targetPrefix targetAddress entry)
        [holding targetPrefix targetAddress (some best)] 0 0 =
      if rank targetPrefix targetAddress entry < rank targetPrefix targetAddress best then (0, 0)
      else (1, 0) := by
  rw [search_single]
  refine if_congr ?_ rfl rfl
  simp only [holding, rank, Prod.Lex.toLex_lt_toLex]
  by_cases mine : nodeDistance targetPrefix targetAddress entry = 0#32 <;>
    by_cases its : nodeDistance targetPrefix targetAddress best = 0#32 <;> simp [mine, its]

/-- One node more, for a collector of one element -/
theorem addNode_single (entry : Entry) (collector : NodeCollector) (held : Option Entry)
    (single : collector.nodes = [holding collector.targetPrefix collector.targetAddress held]) :
    addNode entry collector =
      { collector with nodes := [holding collector.targetPrefix collector.targetAddress
          (if nodeDistance collector.targetPrefix collector.targetAddress entry <
              collector.thisNodeDistance then
            Selection.keepBest (rank collector.targetPrefix collector.targetAddress) held entry
          else held)] } := by
  simp only [addNode, single]
  by_cases near : nodeDistance collector.targetPrefix collector.targetAddress entry <
      collector.thisNodeDistance
  · simp only [near, if_true]
    cases held with
    | none =>
        rw [holding, search_unused]
        simp [Selection.keepBest, holding]
    | some best =>
        rw [search_holding]
        by_cases below : rank collector.targetPrefix collector.targetAddress entry <
            rank collector.targetPrefix collector.targetAddress best
        · simp [Selection.keepBest, below, ← single]
        · simp [Selection.keepBest, below, holding]
  · simp [near, ← single]

end LinkStateNodeCollector

end Cjdns
