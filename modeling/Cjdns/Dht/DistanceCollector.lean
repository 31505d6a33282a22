import Cjdns.Dht.LinkStateOrder
import Cjdns.Library.Ranking

/-!
# Collecting nodes by distance

`DistanceNodeCollector_addNode` prefers the nearer node, then the one with the larger
reach, then the one with the shorter path. It packs reach and path into one word of 32
bits, which has room for 25 bits of the reach: from there on the order is that of the low
bits (`toNat_reachAndPath`). What is collected is what is best by this order
(`positions_collect`), which is the order that was meant as long as no node that counts is
out of the range.
-/

namespace Cjdns

variable [AddressCalc]

namespace DistanceNodeCollector

open NodeCollector (Element)
open LinkStateNodeCollector (nodeDistance moveDown IsAdmissible positions)

/-- `reachAndPath` -/
def reachAndPath (entry : Entry) : BitVec 32 :=
  entry.header.reach <<< 7 ||| BitVec.ofNat 32 (64 - Bits.log2x64 entry.body.address.path)

/-- The loop over the array: the index at which it ends and `reachAndPath`, which is computed
in the first turn -/
def search (entry : Entry) (distance : BitVec 32) : List Element → ℕ → BitVec 32 → ℕ × BitVec 32
  | [], i, value => (i, value)
  | element :: rest, i, value =>
      if distance > element.distance then (i, value)
      else
        let value := if i = 0 then reachAndPath entry else value
        if distance < element.distance then search entry distance rest (i + 1) value
        else if value.toNat > element.value then search entry distance rest (i + 1) value
        else (i, value)

/-- `DistanceNodeCollector_addNode`; the distance is that of the other collector. -/
def addNode (entry : Entry) (collector : NodeCollector) : NodeCollector :=
  let distance := nodeDistance collector.targetPrefix collector.targetAddress entry
  if distance < collector.thisNodeDistance then
    let (i, value) := search entry distance collector.nodes 0 0
    if i > 0 then
      let nodes := if i > 1 then moveDown collector.nodes (i - 1) else collector.nodes
      { collector with
        nodes := nodes.set (i - 1)
          { node := some entry, value := value.toNat, distance := distance } }
    else collector
  else collector

/-- The nodes of a table are offered one after the other. -/
def collect (collector : NodeCollector) (offered : List Entry) : NodeCollector :=
  offered.foldl (fun collector entry => addNode entry collector) collector

end DistanceNodeCollector

/-- `NodeStore_getNodesByAddr` -/
def NodeStore.getNodesByAddr (address : Address) (max : ℕ) (store : NodeStore) : List Node :=
  let collector := DistanceNodeCollector.collect
    (NodeCollector.new address max store.thisNodeAddress true) store.entries
  collector.nodes.filterMap fun element => element.node.bind fun entry =>
    if entry.body.address.ip6 = address.resolved.ip6 then some entry.body else none

namespace DistanceNodeCollector

open NodeCollector (Element)
open LinkStateNodeCollector (nodeDistance moveDown IsAdmissible positions)

/-! ## The order of the nodes -/

/-- What decides between two nodes: the distance, then the reach, then the length of the path -/
abbrev Merit : Type :=
  ℕᵒᵈ ×ₗ (ℕ ×ₗ ℕᵒᵈ)

/-- The merit of a node, for some reading of the reach -/
def merit (reach : BitVec 32 → ℕ) (targetPrefix : BitVec 32) (targetAddress : Address)
    (entry : Entry) : Merit :=
  toLex (OrderDual.toDual (nodeDistance targetPrefix targetAddress entry).toNat,
    toLex (reach entry.header.reach,
      OrderDual.toDual (Bits.log2x64 entry.body.address.path)))

/-- The reach as it should be read -/
def wholeReach (reach : BitVec 32) : ℕ :=
  reach.toNat

/-- What is left of a reach in the packed word -/
def packedReach (reach : BitVec 32) : ℕ :=
  reach.toNat % 2 ^ 25

theorem merit_lt_iff {reach : BitVec 32 → ℕ} {targetPrefix : BitVec 32}
    {targetAddress : Address} {one two : Entry} :
    merit reach targetPrefix targetAddress one < merit reach targetPrefix targetAddress two ↔
      nodeDistance targetPrefix targetAddress two < nodeDistance targetPrefix targetAddress one ∨
        nodeDistance targetPrefix targetAddress one =
            nodeDistance targetPrefix targetAddress two ∧
          (reach one.header.reach < reach two.header.reach ∨
            reach one.header.reach = reach two.header.reach ∧
              Bits.log2x64 two.body.address.path < Bits.log2x64 one.body.address.path) := by
  rw [merit, merit, Prod.Lex.toLex_lt_toLex, Prod.Lex.toLex_lt_toLex, OrderDual.toDual_lt_toDual,
    OrderDual.toDual_lt_toDual, EmbeddingLike.apply_eq_iff_eq, BitVec.toNat_inj, BitVec.lt_def]

/-- The word has the low bits of the reach above the path. -/
theorem toNat_reachAndPath (entry : Entry) :
    (reachAndPath entry).toNat = packedReach entry.header.reach * 2 ^ 7 +
      (64 - Bits.log2x64 entry.body.address.path) := by
  have small : 64 - Bits.log2x64 entry.body.address.path < 2 ^ 7 := by omega
  have value : (BitVec.ofNat 32 (64 - Bits.log2x64 entry.body.address.path)).toNat =
      64 - Bits.log2x64 entry.body.address.path := by
    rw [BitVec.toNat_ofNat]
    exact Nat.mod_eq_of_lt (by omega)
  have shifted : (entry.header.reach <<< 7).toNat = packedReach entry.header.reach * 2 ^ 7 := by
    rw [BitVec.toNat_shiftLeft, Nat.shiftLeft_eq, packedReach]
    omega
  rw [reachAndPath, BitVec.toNat_or, value, shifted, Nat.mul_comm,
    ← Nat.two_pow_add_eq_or_of_lt small]

/-! ## The loop -/

section Places

variable {targetPrefix : BitVec 32} {targetAddress : Address}

variable (targetPrefix targetAddress) in
/-- The element that holds a node, or none -/
def holding : Option Entry → Element
  | none => Element.unused
  | some entry =>
      { node := some entry
        value := (reachAndPath entry).toNat
        distance := nodeDistance targetPrefix targetAddress entry }

variable (targetPrefix targetAddress) in
/-- The key by which the program selects -/
abbrev packedMerit : Entry → Merit :=
  merit packedReach targetPrefix targetAddress

/-- One turn of the loop -/
theorem search_cons {entry : Entry} (held : Option Entry) (rest : List Element) (i : ℕ)
    (value : BitVec 32) (near : nodeDistance targetPrefix targetAddress entry < UINT32_MAX)
    (known : i ≠ 0 → value = reachAndPath entry) :
    ∃ last, (i ≠ 0 → last = reachAndPath entry) ∧
      search entry (nodeDistance targetPrefix targetAddress entry)
          (holding targetPrefix targetAddress held :: rest) i value =
        if Ranking.rankOf (packedMerit targetPrefix targetAddress) (some entry) ≤
            Ranking.rankOf (packedMerit targetPrefix targetAddress) held then (i, last)
        else search entry (nodeDistance targetPrefix targetAddress entry) rest (i + 1)
          (reachAndPath entry) := by
  have computed : (if i = 0 then reachAndPath entry else value) = reachAndPath entry := by
    split_ifs with first
    · rfl
    · exact known first
  cases held with
  | none =>
      refine ⟨value, known, ?_⟩
      have taken : ¬Ranking.rankOf (packedMerit targetPrefix targetAddress) (some entry) ≤
          Ranking.rankOf (packedMerit targetPrefix targetAddress) none :=
        not_le.mpr (WithBot.bot_lt_coe _)
      have above : ¬nodeDistance targetPrefix targetAddress entry > UINT32_MAX :=
        fun far => BitVec.lt_asymm near far
      rw [if_neg taken, search, holding, Element.unused]
      simp only [above, near, computed, if_true, if_false]
  | some other =>
      have order : Ranking.rankOf (packedMerit targetPrefix targetAddress) (some entry) ≤
          Ranking.rankOf (packedMerit targetPrefix targetAddress) (some other) ↔
            ¬packedMerit targetPrefix targetAddress other <
              packedMerit targetPrefix targetAddress entry := by
        rw [Ranking.rankOf, Ranking.rankOf, WithBot.coe_le_coe, not_lt]
      have larger : (reachAndPath other).toNat < (reachAndPath entry).toNat ↔
          packedReach other.header.reach < packedReach entry.header.reach ∨
            packedReach other.header.reach = packedReach entry.header.reach ∧
              Bits.log2x64 entry.body.address.path < Bits.log2x64 other.body.address.path := by
        have one := Bits.log2x64_le entry.body.address.path
        have two := Bits.log2x64_le other.body.address.path
        rw [toNat_reachAndPath, toNat_reachAndPath]
        omega
      have turn : search entry (nodeDistance targetPrefix targetAddress entry)
            (holding targetPrefix targetAddress (some other) :: rest) i value =
          if nodeDistance targetPrefix targetAddress entry >
              nodeDistance targetPrefix targetAddress other then (i, value)
          else if nodeDistance targetPrefix targetAddress entry <
              nodeDistance targetPrefix targetAddress other then
            search entry (nodeDistance targetPrefix targetAddress entry) rest (i + 1)
              (if i = 0 then reachAndPath entry else value)
          else if (if i = 0 then reachAndPath entry else value).toNat >
              (reachAndPath other).toNat then
            search entry (nodeDistance targetPrefix targetAddress entry) rest (i + 1)
              (if i = 0 then reachAndPath entry else value)
          else (i, if i = 0 then reachAndPath entry else value) := rfl
      rw [turn, computed]
      simp only [order, packedMerit, merit_lt_iff, ← larger]
      by_cases far : nodeDistance targetPrefix targetAddress entry >
          nodeDistance targetPrefix targetAddress other
      · refine ⟨value, known, ?_⟩
        have nearer : ¬nodeDistance targetPrefix targetAddress entry <
            nodeDistance targetPrefix targetAddress other := fun less => BitVec.lt_asymm far less
        have differs : nodeDistance targetPrefix targetAddress other ≠
            nodeDistance targetPrefix targetAddress entry := by
          intro same
          rw [same] at far
          exact BitVec.lt_irrefl _ far
        rw [if_pos far, if_pos (by simp [nearer, differs])]
      · refine ⟨reachAndPath entry, fun _ => rfl, ?_⟩
        rw [if_neg far]
        by_cases nearer : nodeDistance targetPrefix targetAddress entry <
            nodeDistance targetPrefix targetAddress other
        · rw [if_pos nearer, if_neg (by simp [nearer])]
        · have same : nodeDistance targetPrefix targetAddress other =
              nodeDistance targetPrefix targetAddress entry :=
            BitVec.le_antisymm (BitVec.not_lt.mp nearer) (BitVec.not_lt.mp far)
          rw [if_neg nearer]
          by_cases more : (reachAndPath other).toNat < (reachAndPath entry).toNat
          · rw [if_pos more, if_neg (by simp [same, more])]
          · rw [if_neg more, if_pos (by simp [nearer, more])]

/-- The loop ends behind the elements that rank below the node. -/
theorem search_holding {entry : Entry} (held : List (Option Entry)) (i : ℕ) (value : BitVec 32)
    (near : nodeDistance targetPrefix targetAddress entry < UINT32_MAX)
    (known : i ≠ 0 → value = reachAndPath entry) :
    ∃ last, search entry (nodeDistance targetPrefix targetAddress entry)
        (held.map (holding targetPrefix targetAddress)) i value =
      (i + (held.takeWhile fun other => ¬
        Ranking.rankOf (packedMerit targetPrefix targetAddress) (some entry) ≤
          Ranking.rankOf (packedMerit targetPrefix targetAddress) other).length, last) ∧
      (i + (held.takeWhile fun other => ¬
        Ranking.rankOf (packedMerit targetPrefix targetAddress) (some entry) ≤
          Ranking.rankOf (packedMerit targetPrefix targetAddress) other).length ≠ 0 →
        last = reachAndPath entry) := by
  induction held generalizing i value with
  | nil => exact ⟨value, rfl, known⟩
  | cons other held ih =>
      rcases search_cons other (held.map (holding targetPrefix targetAddress)) i value near known
        with ⟨last, computed, turn⟩
      rw [List.map_cons, turn]
      by_cases stops : Ranking.rankOf (packedMerit targetPrefix targetAddress) (some entry) ≤
          Ranking.rankOf (packedMerit targetPrefix targetAddress) other
      · rw [if_pos stops, List.takeWhile_cons_of_neg (by simp [stops])]
        exact ⟨last, rfl, computed⟩
      · rcases ih (i + 1) (reachAndPath entry) fun _ => rfl with ⟨last, later, same⟩
        rw [if_neg stops, List.takeWhile_cons_of_pos (by simp [stops]), later,
          List.length_cons]
        refine ⟨last, ?_, fun _ => same (by omega)⟩
        congr 1
        omega

end Places

/-- What the program does to the array when an admissible node is offered -/
theorem addNode_eq_place {entry : Entry} {collector : NodeCollector} {held : List (Option Entry)}
    (exact : collector.nodes =
      held.map (holding collector.targetPrefix collector.targetAddress))
    (near : IsAdmissible collector entry) :
    addNode entry collector = { collector with
      nodes := (Ranking.place (packedMerit collector.targetPrefix collector.targetAddress) entry
        held).map (holding collector.targetPrefix collector.targetAddress) } := by
  have bound : nodeDistance collector.targetPrefix collector.targetAddress entry < UINT32_MAX := by
    have size := collector.thisNodeDistance.isLt
    have most : UINT32_MAX.toNat = 2 ^ 32 - 1 := by decide
    rw [IsAdmissible, BitVec.lt_def] at near
    rw [BitVec.lt_def]
    omega
  rcases search_holding held 0 0 bound (fun zero => absurd rfl zero) with ⟨last, ends, computed⟩
  rw [zero_add] at ends computed
  have split := List.takeWhile_append_dropWhile
    (p := fun other => decide ¬(Ranking.rankOf
      (packedMerit collector.targetPrefix collector.targetAddress) (some entry) ≤
        Ranking.rankOf (packedMerit collector.targetPrefix collector.targetAddress) other))
    (l := held)
  rw [IsAdmissible] at near
  rw [Ranking.place, List.orderedInsert_eq_take_drop]
  generalize held.takeWhile _ = taken at split ends computed ⊢
  generalize held.dropWhile _ = rest at split ⊢
  subst split
  cases taken with
  | nil =>
      rw [List.nil_append] at exact ends
      simp only [addNode, near, if_true, exact, ends, List.length_nil, gt_iff_lt, lt_irrefl,
        if_false, List.nil_append, List.tail_cons]
      rw [← exact]
  | cons first passed =>
      have value := computed (Nat.succ_ne_zero _)
      subst value
      have shifted := LinkStateNodeCollector.set_moveDown
        (holding collector.targetPrefix collector.targetAddress first)
        (passed.map (holding collector.targetPrefix collector.targetAddress))
        (rest.map (holding collector.targetPrefix collector.targetAddress))
        (holding collector.targetPrefix collector.targetAddress (some entry))
      rw [List.length_map] at shifted
      simp only [addNode, near, if_true, exact, ends, List.length_cons, gt_iff_lt, Nat.succ_pos,
        Nat.add_sub_cancel]
      congr 1
      rw [LinkStateNodeCollector.ite_moveDown, List.map_append, List.map_cons,
        show first :: passed ++ some entry :: rest = first :: (passed ++ some entry :: rest) from
          rfl, List.tail_cons, List.map_append, List.map_cons]
      exact shifted

/-! ## A whole table -/

instance (collector : NodeCollector) (entry : Entry) : Decidable (IsAdmissible collector entry) :=
  inferInstanceAs (Decidable (_ < _))

/-- The nodes that have a place in a collector -/
def admissible (collector : NodeCollector) (table : List Entry) : List Entry :=
  table.filter fun entry => IsAdmissible collector entry

/-- The array after a table: what is best by the packed word -/
theorem collect_eq (collector : NodeCollector) (held : List (Option Entry)) (table : List Entry)
    (exact : collector.nodes =
      held.map (holding collector.targetPrefix collector.targetAddress)) :
    collect collector table = { collector with
      nodes := ((admissible collector table).foldl (fun held entry => Ranking.place
        (packedMerit collector.targetPrefix collector.targetAddress) entry held) held).map
          (holding collector.targetPrefix collector.targetAddress) } := by
  induction table generalizing collector held with
  | nil =>
      rw [collect, List.foldl_nil, admissible, List.filter_nil, List.foldl_nil, ← exact]
  | cons entry table ih =>
      rw [collect, List.foldl_cons]
      change collect (addNode entry collector) table = _
      by_cases near : IsAdmissible collector entry
      · have split : admissible collector (entry :: table) =
            entry :: admissible collector table :=
          List.filter_cons_of_pos (decide_eq_true near)
        rw [addNode_eq_place exact near, ih _ _ rfl, split, List.foldl_cons]
        rfl
      · have split : admissible collector (entry :: table) = admissible collector table :=
          List.filter_cons_of_neg (by simpa using near)
        have stays : addNode entry collector = collector := by
          rw [IsAdmissible] at near
          simp only [addNode, near, if_false]
        rw [stays, ih collector held exact, split]

theorem positions_collect (target self : Address) (count : ℕ) (farther : Bool)
    (table : List Entry) :
    positions (collect (NodeCollector.new target count self farther) table) =
      List.replicate (count - (admissible (NodeCollector.new target count self farther)
        table).length) none ++
        (Ranking.best (packedMerit target.getPrefix target.resolved) count
          (admissible (NodeCollector.new target count self farther) table)).map some := by
  have fresh : (NodeCollector.new target count self farther).nodes =
      (List.replicate count none).map (holding target.getPrefix target.resolved) := by
    rw [List.map_replicate]
    rfl
  have node : ∀ held, (holding target.getPrefix target.resolved held).node = held := by
    rintro (_ | entry) <;> rfl
  rw [collect_eq _ _ table fresh, positions, ← Ranking.foldl_place]
  exact LinkStateNodeCollector.map_node node _

/-- An entry is one for an address. -/
def IsFor (target : Address) (entry : Entry) : Bool :=
  entry.body.address.ip6 == target.resolved.ip6

/-- What is expected of a collector of a table, for a target and a number of nodes -/
structure SelectsBest (target : Address) (count : ℕ) (farther : Bool) (store : NodeStore) :
    Prop where
  /-- The nearest nodes, those of equal distance by the reach and then by the path, in order
  from the worst to the best; what is left over of the array is at its low end. -/
  collected :
    positions (collect (NodeCollector.new target count store.thisNodeAddress farther)
        store.entries) =
      List.replicate (count - (admissible (NodeCollector.new target count store.thisNodeAddress
        farther) store.entries).length) none ++
        (Ranking.best (merit wholeReach target.getPrefix target.resolved) count
          (admissible (NodeCollector.new target count store.thisNodeAddress farther)
            store.entries)).map some
  /-- All entries for the target are returned, if there are not more than were asked for. -/
  everyEntry : store.entries.countP (IsFor target) ≤ count →
    (store.getNodesByAddr target count).Perm ((store.entries.filter (IsFor target)).map (·.body))

theorem nodeDistance_eq_zero_iff (target : Address) (entry : Entry) :
    nodeDistance target.getPrefix target.resolved entry = 0#32 ↔ IsFor target entry = true := by
  rw [IsFor, beq_iff_eq]
  exact entry.collectorDistance_eq_zero_iff target

/-- The entries for an address are all among the nearest nodes, whatever their reach is. -/
theorem getNodesByAddr_perm (target : Address) (count : ℕ) (store : NodeStore)
    (few : store.entries.countP (IsFor target) ≤ count) :
    (store.getNodesByAddr target count).Perm
      ((store.entries.filter (IsFor target)).map (·.body)) := by
  have returned : store.getNodesByAddr target count =
      ((Ranking.best (packedMerit target.getPrefix target.resolved) count
        (admissible (NodeCollector.new target count store.thisNodeAddress true)
          store.entries)).filter (IsFor target)).map (·.body) := by
    have places := positions_collect target store.thisNodeAddress count true store.entries
    have asked : store.getNodesByAddr target count = (positions (collect
        (NodeCollector.new target count store.thisNodeAddress true) store.entries)).filterMap
          (fun node => node.bind fun entry =>
            if entry.body.address.ip6 = target.resolved.ip6 then some entry.body else none) := by
      rw [positions, List.filterMap_map]
      rfl
    rw [asked, places, List.filterMap_append, List.filterMap_map,
      List.filterMap_replicate_of_none rfl,
      List.nil_append, ← List.filterMap_eq_map, List.filterMap_filter]
    apply List.filterMap_congr
    intro entry _
    simp [IsFor]
  have near : (admissible (NodeCollector.new target count store.thisNodeAddress true)
      store.entries).filter (IsFor target) = store.entries.filter (IsFor target) := by
    rw [admissible, List.filter_filter]
    apply List.filter_congr
    intro entry _
    by_cases this : IsFor target entry = true
    · have zero := (nodeDistance_eq_zero_iff target entry).mpr this
      have inside : IsAdmissible (NodeCollector.new target count store.thisNodeAddress true)
          entry := by
        change nodeDistance target.getPrefix target.resolved entry < UINT32_MAX
        rw [zero]
        decide
      simp [this, inside]
    · simp [this]
  have counted := congrArg List.length near
  rw [← List.countP_eq_length_filter, ← List.countP_eq_length_filter] at counted
  rw [returned, ← near]
  apply List.Perm.map
  apply Ranking.filter_best_perm _ _ (counted.le.trans few)
  intro one _ two _ wins loses
  rw [packedMerit, merit_lt_iff]
  left
  have zero := (nodeDistance_eq_zero_iff target one).mpr wins
  have away : nodeDistance target.getPrefix target.resolved two ≠ 0#32 := by
    rw [ne_eq, nodeDistance_eq_zero_iff, loses]
    exact Bool.false_ne_true
  rw [zero, BitVec.lt_def]
  have : (nodeDistance target.getPrefix target.resolved two).toNat ≠ 0 := by
    intro none
    exact away (BitVec.eq_of_toNat_eq none)
  exact Nat.pos_of_ne_zero this

/--
The best nodes are collected exactly if those of them compare with all others by the low 25
bits of the reaches as they do by the reaches.
-/
theorem selectsBest_iff (target : Address) (count : ℕ) (farther : Bool) (store : NodeStore) :
    SelectsBest target count farther store ↔
      ∀ item ∈ (admissible (NodeCollector.new target count store.thisNodeAddress farther)
          store.entries).zipIdx,
        Ranking.above (merit wholeReach target.getPrefix target.resolved)
            (admissible (NodeCollector.new target count store.thisNodeAddress farther)
              store.entries) item < count →
          ∀ other ∈ (admissible (NodeCollector.new target count store.thisNodeAddress farther)
              store.entries).zipIdx,
            Ranking.standing (merit wholeReach target.getPrefix target.resolved) item <
                Ranking.standing (merit wholeReach target.getPrefix target.resolved) other ↔
              Ranking.standing (merit packedReach target.getPrefix target.resolved) item <
                Ranking.standing (merit packedReach target.getPrefix target.resolved) other := by
  rw [← Ranking.best_eq_iff]
  have places := positions_collect target store.thisNodeAddress count farther store.entries
  constructor
  · intro selects
    have same := selects.collected
    rw [places] at same
    exact (List.map_injective_iff.mpr (Option.some_injective _)
      (List.append_cancel_left same)).symm
  · intro same
    refine ⟨?_, getNodesByAddr_perm target count store⟩
    rw [places, packedMerit, same]

/-- The best nodes are collected where every reach fits. -/
theorem selectsBest_of_reach_lt {target : Address} {count : ℕ} {farther : Bool}
    {store : NodeStore} (fits : ∀ entry ∈ store.entries, entry.header.reach.toNat < 2 ^ 25) :
    SelectsBest target count farther store := by
  refine ⟨?_, getNodesByAddr_perm target count store⟩
  have same (item : Entry × ℕ) (inside : item ∈ (admissible (NodeCollector.new target count
      store.thisNodeAddress farther) store.entries).zipIdx) :
      merit packedReach target.getPrefix target.resolved item.1 =
        merit wholeReach target.getPrefix target.resolved item.1 := by
    have known : item.1 ∈ store.entries := by
      have kept := List.mem_map_of_mem (f := Prod.fst) inside
      rw [List.zipIdx_map_fst] at kept
      exact List.mem_of_mem_filter kept
    rw [merit, merit, packedReach, wholeReach, Nat.mod_eq_of_lt (fits item.1 known)]
  have agree : Ranking.best (packedMerit target.getPrefix target.resolved) count
        (admissible (NodeCollector.new target count store.thisNodeAddress farther)
          store.entries) =
      Ranking.best (merit wholeReach target.getPrefix target.resolved) count
        (admissible (NodeCollector.new target count store.thisNodeAddress farther)
          store.entries) := by
    rw [Ranking.best_eq_iff]
    intro one first _ two second
    simp only [Ranking.standing, same one first, same two second]
  rw [positions_collect, agree]

omit [AddressCalc] in
/-- A node of reach 2 ^ 25 loses against one of reach 1. -/
theorem large_reach_loses :
    letI := AddressCalc.plain
    ∃ (target : Address) (store : NodeStore), ¬SelectsBest target 1 true store := by
  let := AddressCalc.plain
  let address (key : BitVec 256) : Address :=
    { ip6 := AddressCalc.addressForPublicKey key, key := key, path := 0x15 }
  let node (address : Address) (reach : BitVec 32) : Entry :=
    (Entry.replaceNode { reach := 0, version := 0, address := address } address).withReach reach
  refine ⟨address 1, { thisNodeAddress := address 1, capacity := 2, labelSum := 8, entries :=
    [node (address 0x200000002) 0x2000000, node (address 0x200000003) 1] }, fun selects => ?_⟩
  have reaches := congrArg (List.map (Option.map fun entry => entry.header.reach))
    selects.collected
  exact absurd reaches (by decide +kernel)

end DistanceNodeCollector

end Cjdns
