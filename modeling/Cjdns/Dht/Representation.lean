import Cjdns.Dht.AddNode
import Cjdns.Library.Transition
import Mathlib.Data.BitVec

/-!
# The representation of the node store

Every operation keeps the table in order: it does not outgrow its capacity, no path
stands in it twice, and the headers belong to their nodes. The count of the labels is
another matter. `NodeStore_remove` clears the path of the position that it frees, so that
the next `replaceNode` there subtracts nothing, but it does not subtract the label
itself. The count is ahead of the table by the labels of all entries that were ever
removed.
-/

namespace Cjdns

variable [AddressCalc]

namespace NodeStore

/-- `NodeStore_new` -/
def new (myAddress : Address) (capacity : ℕ) : NodeStore :=
  { thisNodeAddress := myAddress, capacity := capacity, entries := [], labelSum := 0 }

/-- The calls that change the table -/
inductive StoreEvent where
  | add (addr : Address) (reachDifference : ℤ) (version : BitVec 32)
  | remove (index : ℕ)
  | broken (path : BitVec 64)
  /-- `NodeStore_updateReach` for a node, with the reach that has been written to it -/
  | update (index : ℕ) (reach : BitVec 32)

/-- A call; there is no result where an assertion fails. -/
def storeStep (store : NodeStore) : StoreEvent → Option NodeStore
  | .add addr reachDifference version =>
      match store.addNode addr reachDifference version with
      | .node _ after => some after
      | .null after => some after
      | .aborted => none
  | .remove index => if index < store.size then some (store.remove index) else none
  | .broken path => some (store.brokenPath path).2
  | .update index reach => if index < store.size then some (store.updateReach index reach) else none

/-- The node store as a transition system -/
def storeSystem : TransitionSystem NodeStore StoreEvent where
  initial store := ∃ myAddress capacity, 1 ≤ capacity ∧ store = new myAddress capacity
  step store event after := store.storeStep event = some after

/-- The sum of the logarithms of the labels in the table -/
def labelTotal (store : NodeStore) : ℕ :=
  (store.addresses.map fun address => Bits.log2x64 address.path).sum

/-- The representation invariant -/
structure Representation (store : NodeStore) : Prop where
  size_le : store.size ≤ store.capacity
  distinct : (store.addresses.map (·.path)).Nodup
  headers : ∀ entry ∈ store.entries,
    entry.header.addressPrefix = entry.body.address.getPrefix ∧
      entry.header.switchIndex = getSwitchIndex entry.body.address
  counted : store.labelSum.toInt = store.labelTotal

/-- The assertions of `NodeStore_addNode`, with the one that is compiled for debugging -/
structure AssertionsHold (addr : Address) (reachDifference : ℤ) (version : BitVec 32)
    (store : NodeStore) : Prop where
  finishes : store.addNode addr reachDifference version ≠ .aborted
  debugging : ∀ entry ∈ store.entries, entry.header.addressPrefix = addr.getPrefix →
    AddressCalc.addressForPublicKey addr.key = addr.resolved.ip6

/-- An address that may be added: a valid one that belongs to its key, by a label of several bits -/
structure Proper (addr : Address) : Prop where
  valid : AddressCalc.validAddress addr.ip6 = true
  ip6_eq : addr.ip6 = AddressCalc.addressForPublicKey addr.key
  multiBit : 2 ≤ addr.path.toNat

/-- What the callers see to -/
def Admissible (_ : NodeStore) : StoreEvent → Prop
  | .add addr _ version =>
      Proper addr ∧ Version.isCompatible Version.CURRENT_PROTOCOL version = true
  | .remove _ => True
  | .broken _ => True
  | .update _ _ => True

/-- No entry is removed, and the labels do not sum up beyond an `int32_t`. -/
def Steady (store : NodeStore) : StoreEvent → Prop
  | .add addr _ _ =>
      (∀ i entry, Arrives addr.resolved store i store → store.entries[i]? = some entry →
        ¬ entry.Prunes addr.resolved) ∧
      store.labelTotal + Bits.log2x64 addr.path ≤ INT32_MAX
  | .remove _ => False
  | .broken path => ∀ entry ∈ store.entries,
      LabelSplicer.routesThrough entry.body.address.path path = true →
        LabelSplicer.isOneHop entry.body.address.path = true
  | .update _ _ => True

/-! ## What the operations do to the addresses -/

variable {store after : NodeStore} {addr : Address} {index : ℕ} {entry : Entry}
  {reachDifference : ℤ} {version : BitVec 32}

theorem Proper.resolved_eq (proper : Proper addr) : addr.resolved = addr := by
  apply Address.resolved_of_ne
  intro zero
  have valid := proper.valid
  rw [zero] at valid
  exact absurd valid (by decide)

theorem addresses_updateReach (index : ℕ) (reach : BitVec 32) (store : NodeStore) :
    (store.updateReach index reach).addresses = store.addresses := by
  have untouched (path : BitVec 64) (entry : Entry) :
      (reachOf path reach entry).body.address = entry.body.address := by
    simp only [reachOf]
    split_ifs <;> rfl
  unfold updateReach
  cases found : store.entries[index]? with
  | none => rfl
  | some entry =>
      rw [← addresses_refresh found
        ({ entry with body := { entry.body with reach := reach } }.withReach reach) rfl]
      simp only [addresses, List.map_map, Function.comp_def, untouched]

@[simp]
theorem sameFrame_updateReach (index : ℕ) (reach : BitVec 32) (store : NodeStore) :
    SameFrame store (store.updateReach index reach) := by
  unfold updateReach
  split <;> exact ⟨rfl, rfl⟩

@[simp]
theorem labelSum_updateReach (index : ℕ) (reach : BitVec 32) (store : NodeStore) :
    (store.updateReach index reach).labelSum = store.labelSum := by
  unfold updateReach
  split <;> rfl

/-- The table with the reach of one entry zeroed, as `NodeStore_brokenPath` leaves it -/
def zeroReach (index : ℕ) (entry : Entry) (store : NodeStore) : NodeStore :=
  { store with entries := store.entries.set index (entry.withReach 0) }

/-- What removals and zeroing preserve, `NodeStore_brokenPath` preserves. -/
theorem brokenPathLoop_preserves (property : NodeStore → Prop) {path : BitVec 64}
    (removes : ∀ {store : NodeStore} {index : ℕ} {entry : Entry},
      store.entries[index]? = some entry →
        LabelSplicer.routesThrough entry.body.address.path path = true →
        LabelSplicer.isOneHop entry.body.address.path = false →
        property store → property (store.remove index))
    (zeroes : ∀ {store : NodeStore} {index : ℕ} {entry : Entry},
      store.entries[index]? = some entry → property store →
        property (store.zeroReach index entry))
    (rounds out : ℕ) (holds : property store) :
    property (brokenPathLoop path rounds out store).2 := by
  induction rounds generalizing out store with
  | zero => exact holds
  | succ i ih =>
      rw [brokenPathLoop]
      cases found : store.entries[i]? with
      | none => exact ih out holds
      | some entry =>
          simp only
          split_ifs with through multiHop
          · exact ih _ (removes found through (by simpa using multiHop) holds)
          · exact ih _ (zeroes found holds)
          · exact ih _ holds

theorem sameFrame_zeroReach (index : ℕ) (entry : Entry) (store : NodeStore) :
    SameFrame store (store.zeroReach index entry) :=
  ⟨rfl, rfl⟩

theorem addresses_zeroReach (found : store.entries[index]? = some entry) :
    (store.zeroReach index entry).addresses = store.addresses :=
  addresses_refresh found _ rfl

/-! ## The table -/

/-- The part of the representation that every operation keeps -/
structure Orderly (store : NodeStore) : Prop where
  roomy : 1 ≤ store.capacity
  size_le : store.size ≤ store.capacity
  distinct : (store.addresses.map (·.path)).Nodup

theorem Orderly.of_same (orderly : Orderly store) (sameFrame : SameFrame store after)
    (same : after.addresses = store.addresses) : Orderly after where
  roomy := sameFrame.capacity_eq ▸ orderly.roomy
  size_le := by
    rw [← length_addresses, same, length_addresses, sameFrame.capacity_eq]
    exact orderly.size_le
  distinct := same ▸ orderly.distinct

theorem Orderly.remove (orderly : Orderly store) (index : ℕ) : Orderly (store.remove index) where
  roomy := by
    rw [(sameFrame_remove index store).capacity_eq]
    exact orderly.roomy
  size_le := by
    have bound := orderly.size_le
    rw [(sameFrame_remove index store).capacity_eq, size_remove]
    omega
  distinct := by
    rw [addresses_remove, SwapRemove.map_swapRemove]
    exact SwapRemove.pairwise_swapRemove Ne.symm orderly.distinct

/-- The path of a new address is nowhere else in the table. -/
theorem Place.nodup_set {start middle : NodeStore} {last : ℕ}
    (arrives : Arrives addr start last middle)
    (place : Place addr reachDifference last middle index)
    (distinct : (middle.addresses.map (·.path)).Nodup) :
    ((middle.addresses.map (·.path)).set index addr.path).Nodup ∧
      (index = middle.size → addr.path ∉ middle.addresses.map (·.path)) := by
  have fresh (atEnd : middle.entries[last]? = none) :
      addr.path ∉ middle.addresses.map (·.path) := by
    intro known
    rw [addresses, List.map_map] at known
    rcases List.mem_map.mp known with ⟨entry, inside, same⟩
    exact (arrives.passed_of_end atEnd inside).1 same
  cases place with
  | @replaces entry found other same heard =>
      have unchanged : (middle.addresses.map (·.path)).set index addr.path =
          middle.addresses.map (·.path) := by
        apply List.ext_getElem?
        intro position
        by_cases here : index = position
        · subst here
          rw [List.getElem?_set_self', List.getElem?_map, addresses_getElem? found, ← same]
          rfl
        · rw [List.getElem?_set_ne here]
      refine ⟨by rw [unchanged]; exact distinct, fun atSize => ?_⟩
      exact absurd atSize (List.getElem?_eq_some_iff.mp found).1.ne
  | fills atEnd room => exact ⟨distinct.set (fresh atEnd), fun _ => fresh atEnd⟩
  | evicts atEnd full before => exact ⟨distinct.set (fresh atEnd), fun _ => fresh atEnd⟩

/-- An address that is written to its place leaves the table in order. -/
theorem Orderly.written {start middle : NodeStore} {last : ℕ} (orderly : Orderly middle)
    (arrives : Arrives addr start last middle)
    (place : Place addr reachDifference last middle index)
    (written : Written index addr middle after) : Orderly after := by
  rcases place.nodup_set arrives orderly.distinct with ⟨setNodup, fresh⟩
  have capacity_eq := written.sameFrame.capacity_eq
  have addresses_eq := written.addresses_eq
  have bound := orderly.size_le
  rcases place.cases arrives orderly.roomy with below | ⟨atSize, room⟩
  · rw [addressesWith, if_pos below] at addresses_eq
    have size_eq : after.size = middle.size := by
      rw [← length_addresses, addresses_eq, List.length_set, length_addresses]
    refine ⟨capacity_eq ▸ orderly.roomy, by omega, ?_⟩
    rw [addresses_eq, List.map_set, Address.resolved_path]
    exact setNodup
  · rw [addressesWith, if_neg atSize.ge.not_gt] at addresses_eq
    have size_eq : after.size = middle.size + 1 := by
      rw [← length_addresses, addresses_eq, List.length_append, length_addresses,
        List.length_singleton]
    refine ⟨capacity_eq ▸ orderly.roomy, by omega, ?_⟩
    rw [addresses_eq, List.map_append, List.map_singleton, Address.resolved_path,
      ← List.concat_eq_append]
    exact orderly.distinct.concat (fresh atSize)

/-- What a call of `NodeStore_addNode` that returns may have done -/
theorem storeStep_add (taken : store.storeStep (.add addr reachDifference version) = some after) :
    after = store ∨ ∃ last middle, Arrives addr.resolved store last middle ∧
      (Leaves addr.resolved reachDifference last middle (.null after) ∨
        ∃ position, Leaves addr.resolved reachDifference last middle (.node position after)) := by
  simp only [storeStep] at taken
  rcases addNode_cases addr reachDifference version store with
    nothing | ⟨_, aborted⟩ | ⟨last, middle, arrives, leaves⟩
  · rw [nothing, Option.some.injEq] at taken
    exact .inl taken.symm
  · rw [aborted] at taken
    cases taken
  · right
    cases outcome : store.addNode addr reachDifference version with
    | node position result =>
        rw [outcome, Option.some.injEq] at taken
        rw [outcome, taken] at leaves
        exact ⟨last, middle, arrives, .inr ⟨position, leaves⟩⟩
    | null result =>
        rw [outcome, Option.some.injEq] at taken
        rw [outcome, taken] at leaves
        exact ⟨last, middle, arrives, .inl leaves⟩
    | aborted =>
        rw [outcome] at taken
        cases taken

theorem Orderly.add (orderly : Orderly store)
    (taken : store.storeStep (.add addr reachDifference version) = some after) :
    Orderly after := by
  rcases storeStep_add taken with rfl | ⟨last, middle, arrives, leaves⟩
  · exact orderly
  have middleOrderly : Orderly middle :=
    arrives.preserves Orderly (fun _ holds => holds.remove _) orderly
  rcases leaves with leaves | ⟨position, leaves⟩
  · cases leaves with
    | null => exact middleOrderly
  · cases leaves with
    | kept sameFrame addresses_eq labelSum_eq =>
        exact middleOrderly.of_same sameFrame addresses_eq
    | put place written => exact middleOrderly.written arrives place written

/-- One step keeps the table in order. -/
theorem Orderly.step {event : StoreEvent} (orderly : Orderly store)
    (taken : store.storeStep event = some after) : Orderly after := by
  cases event with
  | add addr reachDifference version =>
      exact orderly.add taken
  | remove index =>
      rw [storeStep, Option.ite_none_right_eq_some, Option.some.injEq] at taken
      exact taken.2 ▸ orderly.remove index
  | broken path =>
      rw [storeStep, Option.some.injEq] at taken
      subst taken
      apply brokenPathLoop_preserves Orderly _ _ _ _ orderly
      · intro store index entry _ _ _ holds
        exact holds.remove index
      · intro store index entry found holds
        exact holds.of_same (sameFrame_zeroReach ..) (addresses_zeroReach found)
  | update index reach =>
      rw [storeStep, Option.ite_none_right_eq_some, Option.some.injEq] at taken
      rcases taken with ⟨_, rfl⟩
      exact orderly.of_same (sameFrame_updateReach ..) (addresses_updateReach ..)

/-- The table is in order in every run. -/
theorem orderly_of_reachable {guard : NodeStore → StoreEvent → Prop}
    (reachable : storeSystem.Reachable guard store) : Orderly store := by
  refine reachable.invariant ⟨?_, fun orderly _ taken => orderly.step taken⟩
  rintro _ ⟨myAddress, capacity, roomy, rfl⟩
  exact ⟨roomy, Nat.zero_le _, List.nodup_nil⟩

/-! ## The count -/

/-- How far the count is ahead of the table -/
def drift (store : NodeStore) : BitVec 32 :=
  store.labelSum - BitVec.ofNat 32 store.labelTotal

omit [AddressCalc] in
theorem log2x64_zero : Bits.log2x64 0#64 = 0 := by
  decide

theorem labelTotal_written (written : Written index addr store after)
    (place : index < store.size ∨ index = store.size) :
    after.labelTotal + Bits.log2x64 (store.labelAt index) =
      store.labelTotal + Bits.log2x64 addr.path := by
  rw [labelTotal, labelTotal, written.addresses_eq, addressesWith, labelAt]
  rcases place with below | rfl
  · have inside : index < store.addresses.length := by rwa [length_addresses]
    rw [if_pos below, List.getElem?_eq_getElem inside]
    have old := (List.getElem_cons_eraseIdx_perm inside).map fun address =>
      Bits.log2x64 address.path
    have new := (List.set_perm_cons_eraseIdx inside addr.resolved).map fun address =>
      Bits.log2x64 address.path
    rw [← old.sum_eq, new.sum_eq]
    simp only [List.map_cons, List.sum_cons, Address.resolved_path, Option.map_some,
      Option.getD_some]
    omega
  · have none : store.addresses[store.size]? = none := by
      rw [List.getElem?_eq_none_iff, length_addresses]
    rw [if_neg (lt_irrefl _), none]
    simp [log2x64_zero]

/-- An address that is written is counted. -/
theorem drift_written (written : Written index addr store after)
    (place : index < store.size ∨ index = store.size) : after.drift = store.drift := by
  have total := congrArg (BitVec.ofNat 32) (labelTotal_written written place)
  rw [BitVec.ofNat_add, BitVec.ofNat_add] at total
  rw [drift, drift, written.labelSum_eq, labelSumWith]
  linear_combination -total

theorem drift_of_same (same : after.addresses = store.addresses)
    (sum : after.labelSum = store.labelSum) : after.drift = store.drift := by
  rw [drift, drift, labelTotal, same, sum, labelTotal]

theorem log2x64_labelAt_le (index : ℕ) (store : NodeStore) :
    Bits.log2x64 (store.labelAt index) ≤ store.labelTotal := by
  rw [labelAt]
  cases found : store.addresses[index]? with
  | none => simp [log2x64_zero]
  | some address =>
      apply List.single_le_sum
      · exact fun _ _ => Nat.zero_le _
      · exact List.mem_map_of_mem (f := fun address => Bits.log2x64 address.path)
          (List.mem_of_getElem? found)

/-- The table is in order, and the count is right. -/
structure Counted (store : NodeStore) : Prop where
  orderly : Orderly store
  drift_eq : store.drift = 0
  total_le : store.labelTotal ≤ INT32_MAX

omit [AddressCalc] in
theorem toInt_ofNat_of_le {number : ℕ} (small : (number : ℤ) ≤ INT32_MAX) :
    (BitVec.ofNat 32 number).toInt = number := by
  have bound : number < 2147483648 := by
    change (number : ℤ) ≤ 2147483647 at small
    omega
  rw [BitVec.toInt_eq_toNat_of_lt] <;> rw [BitVec.toNat_ofNat] <;> omega

theorem Counted.labelSum_eq (counted : Counted store) :
    store.labelSum = BitVec.ofNat 32 store.labelTotal := by
  have zero := counted.drift_eq
  rw [drift] at zero
  exact sub_eq_zero.mp zero

theorem Counted.representation (counted : Counted store) : Representation store where
  size_le := counted.orderly.size_le
  distinct := counted.orderly.distinct
  headers entry _ := ⟨entry.addressPrefix_eq, entry.switchIndex_eq⟩
  counted := by
    rw [counted.labelSum_eq]
    exact toInt_ofNat_of_le counted.total_le

/-- The count stays positive when an address with a label of several bits is written. -/
theorem Counted.labelSumWith_pos (counted : Counted store) (multiBit : 2 ≤ addr.path.toNat)
    (small : store.labelTotal + Bits.log2x64 addr.path ≤ INT32_MAX) :
    0 < (store.labelSumWith index addr).toInt := by
  have long : 1 ≤ Bits.log2x64 addr.path := by
    by_contra short
    have bound := Bits.toNat_lt_two_pow_log2x64 addr.path
    rw [Nat.lt_one_iff.mp (not_le.mp short)] at bound
    omega
  have inside := log2x64_labelAt_le index store
  have value : store.labelSumWith index addr =
      BitVec.ofNat 32 (store.labelTotal - Bits.log2x64 (store.labelAt index) +
        Bits.log2x64 addr.path) := by
    have bounded := Bits.log2x64_le (store.labelAt index)
    rw [labelSumWith, counted.labelSum_eq, BitVec.ofNat_add,
      BitVec.ofNat_sub_ofNat_of_le _ _ (by omega) inside]
  rw [value, toInt_ofNat_of_le (by omega)]
  omega

theorem Counted.of_same (counted : Counted store) (sameFrame : SameFrame store after)
    (same : after.addresses = store.addresses) (sum : after.labelSum = store.labelSum) :
    Counted after where
  orderly := counted.orderly.of_same sameFrame same
  drift_eq := (drift_of_same same sum).trans counted.drift_eq
  total_le := by
    rw [labelTotal, same, ← labelTotal]
    exact counted.total_le

/-! ## Runs in which nothing is removed -/

/-- The loop removes nothing if it does not come to an entry that it would drop. -/
theorem Arrives.eq_start {start : NodeStore} {last : ℕ}
    (keeps : ∀ i entry, Arrives addr start i start → start.entries[i]? = some entry →
      ¬ entry.Prunes addr)
    (arrives : Arrives addr start last store) : store = start := by
  induction arrives with
  | start => rfl
  | pass _ _ _ ih => exact ih
  | prune earlier found prunes ih =>
      subst ih
      exact absurd prunes (keeps _ _ earlier found)

/-- A steady addition ends in one of the ways in which the loop can end on the table as it is. -/
theorem Counted.add_cases (counted : Counted store)
    (proper : Proper addr) (steady : Steady store (.add addr reachDifference version)) :
    (∃ index after, store.addNode addr reachDifference version = .node index after ∧
        Counted after) ∨
      store.addNode addr reachDifference version = .null store := by
  have small := steady.2
  rcases addNode_cases addr reachDifference version store with
    nothing | ⟨invalid, _⟩ | ⟨last, middle, arrives, leaves⟩
  · exact .inr nothing
  · rw [proper.resolved_eq, proper.valid] at invalid
    cases invalid
  obtain rfl : middle = store := arrives.eq_start steady.1
  rw [proper.resolved_eq] at arrives leaves
  generalize middle.addNode addr reachDifference version = outcome at leaves
  cases leaves with
  | kept sameFrame addresses_eq labelSum_eq =>
      exact .inl ⟨_, _, rfl, counted.of_same sameFrame addresses_eq labelSum_eq⟩
  | null => exact .inr rfl
  | put place written =>
      have position := (place.cases arrives counted.orderly.roomy).imp id And.left
      have total := labelTotal_written written position
      refine .inl ⟨_, _, rfl, counted.orderly.written arrives place written,
        (drift_written written position).trans counted.drift_eq, ?_⟩
      omega
  | overrun place negative =>
      exact absurd negative (not_le.mpr (counted.labelSumWith_pos proper.multiBit small))

/-- One step that removes nothing keeps the count right. -/
theorem Counted.step {event : StoreEvent} (counted : Counted store)
    (admissible : Admissible store event) (steady : Steady store event)
    (taken : store.storeStep event = some after) : Counted after := by
  cases event with
  | add addr reachDifference version =>
      rw [storeStep] at taken
      rcases counted.add_cases admissible.1 steady with ⟨index, next, outcome, nextCounted⟩ | nothing
      · rw [outcome, Option.some.injEq] at taken
        exact taken ▸ nextCounted
      · rw [nothing, Option.some.injEq] at taken
        exact taken ▸ counted
  | remove index => exact absurd steady id
  | broken path =>
      rw [storeStep, Option.some.injEq] at taken
      subst taken
      have direct : ∀ address ∈ store.addresses,
          LabelSplicer.routesThrough address.path path = true →
            LabelSplicer.isOneHop address.path = true := by
        intro address inside
        rcases List.mem_map.mp inside with ⟨entry, member, rfl⟩
        exact steady entry member
      refine And.left (brokenPathLoop_preserves
        (fun next => Counted next ∧ next.addresses = store.addresses) ?_ ?_ _ _ ⟨counted, rfl⟩)
      · intro next index entry found through multiHop holds
        have inside : entry.body.address ∈ store.addresses := by
          rw [← holds.2]
          exact List.mem_of_getElem? (addresses_getElem? found)
        rw [direct _ inside through] at multiHop
        cases multiHop
      · intro next index entry found holds
        have same := addresses_zeroReach found
        exact ⟨holds.1.of_same (sameFrame_zeroReach ..) same rfl, same.trans holds.2⟩
  | update index reach =>
      rw [storeStep, Option.ite_none_right_eq_some, Option.some.injEq] at taken
      rcases taken with ⟨_, rfl⟩
      exact counted.of_same (sameFrame_updateReach ..) (addresses_updateReach ..)
        (labelSum_updateReach ..)

theorem Counted.new {myAddress : Address} {capacity : ℕ} (roomy : 1 ≤ capacity) :
    Counted (new myAddress capacity) where
  orderly := ⟨roomy, Nat.zero_le _, List.nodup_nil⟩
  drift_eq := by simp [drift, labelTotal, addresses, NodeStore.new]
  total_le := by simp [labelTotal, addresses, NodeStore.new]

/-- The calls of a run that removes nothing -/
def Steadily (store : NodeStore) (event : StoreEvent) : Prop :=
  Admissible store event ∧ Steady store event

theorem counted_isInvariant : storeSystem.IsInvariant Steadily Counted where
  initial := by
    rintro _ ⟨myAddress, capacity, roomy, rfl⟩
    exact .new roomy
  step counted met taken := counted.step met.1 met.2 taken

/--
In a run that removes no entry the representation invariant holds all the time, and no
assertion fails in the next call.
-/
theorem representation_of_reachable (reachable : storeSystem.Reachable Steadily store) :
    Representation store ∧ ∀ addr reachDifference version,
      Steadily store (.add addr reachDifference version) →
        AssertionsHold addr reachDifference version store := by
  have counted := reachable.invariant counted_isInvariant
  refine ⟨counted.representation, fun addr reachDifference version met => ?_⟩
  constructor
  · intro aborted
    rcases counted.add_cases met.1.1 met.2 with ⟨_, _, outcome, _⟩ | nothing
    · rw [aborted] at outcome
      cases outcome
    · rw [aborted] at nothing
      cases nothing
  · intro _ _ _
    rw [met.1.1.resolved_eq, ← met.1.1.ip6_eq]

/-! ## A removed label -/

omit [AddressCalc] in
/-- A peer in slot 2 of the switch -/
def formerPeer : Address :=
  { ip6 := 0xFC000000000000000000000000000002, key := 2, path := 0x15 }

/-- A call, as far as no entry of the table has to be removed for it -/
def steadyStep (store : NodeStore) (event : StoreEvent) : Option NodeStore :=
  let steady : Bool :=
    match event with
    | .add addr _ _ =>
        store.entries.all (fun entry =>
          !LabelSplicer.routesThrough entry.body.address.path addr.path ||
            entry.body.address.path == addr.path) &&
          decide (store.labelTotal + Bits.log2x64 addr.path ≤ INT32_MAX)
    | .remove _ => false
    | .broken path => store.entries.all fun entry =>
        !LabelSplicer.routesThrough entry.body.address.path path ||
          LabelSplicer.isOneHop entry.body.address.path
    | .update _ _ => true
  if steady then store.storeStep event else none

theorem steady_of_steadyStep {event : StoreEvent} (taken : store.steadyStep event = some after) :
    Steady store event ∧ store.storeStep event = some after := by
  rcases Option.ite_none_right_eq_some.mp taken with ⟨steady, taken⟩
  refine ⟨?_, taken⟩
  cases event with
  | add addr reachDifference version =>
      rw [Bool.and_eq_true, List.all_eq_true, decide_eq_true_eq] at steady
      refine ⟨fun i entry _ found prunes => ?_, steady.2⟩
      have free := steady.1 entry (List.mem_of_getElem? found)
      rcases prunes with ⟨_, other, through⟩
      rw [Address.resolved_path] at other through
      simp [through, other] at free
  | remove index => cases steady
  | broken path =>
      rw [List.all_eq_true] at steady
      intro entry inside through
      simpa [through] using steady entry inside
  | update index reach => trivial

omit [AddressCalc] in
/-- Three peers and a node behind one of them: reaches change, a path breaks, and the last peer
takes the place of the node. -/
theorem representation_after_churn :
    letI := AddressCalc.plain
    ∃ store : NodeStore, store.size = 3 ∧ store.labelSum = 12 ∧ Representation store ∧
      AssertionsHold formerPeer 1 2 store := by
  let := AddressCalc.plain
  let address (key : BitVec 256) (path : BitVec 64) : Address :=
    { ip6 := AddressCalc.addressForPublicKey key, key := key, path := path }
  let me := address 1 1
  let events : List StoreEvent := [.add (address 2 0x15) 1 2, .add (address 3 0x155) 1 2,
    .add (address 4 0x17) 1 2, .update 0 7, .broken 0x17, .add (address 5 0x19) 2 2]
  have run : (events.foldlM steadyStep (new me 3)).any (fun store =>
      decide (store.size = 3 ∧ store.labelSum = 12) &&
        (store.steadyStep (.add formerPeer 1 2)).isSome) = true := by
    decide +kernel
  rcases (Option.any_eq_true _ _).mp run with ⟨store, run, ends⟩
  rw [Bool.and_eq_true, decide_eq_true_eq] at ends
  have proper (key : BitVec 256) (path : BitVec 64)
      (fine : AddressCalc.validAddress (AddressCalc.addressForPublicKey key) = true ∧
        2 ≤ path.toNat) : Admissible store (.add (address key path) 1 2) :=
    ⟨⟨fine.1, rfl, fine.2⟩, by decide⟩
  have reachable : storeSystem.Reachable Steadily store := by
    have starts : storeSystem.Reachable Steadily (new me 3) := .initial ⟨me, 3, by decide, rfl⟩
    refine starts.foldlM (fun event inside _ taken => ?_) run
    refine ⟨⟨?_, (steady_of_steadyStep taken).1⟩, (steady_of_steadyStep taken).2⟩
    simp only [events, List.mem_cons, List.not_mem_nil, or_false] at inside
    rcases inside with rfl | rfl | rfl | rfl | rfl | rfl
    · exact proper 2 0x15 (by decide)
    · exact proper 3 0x155 (by decide)
    · exact proper 4 0x17 (by decide)
    · trivial
    · trivial
    · exact proper 5 0x19 (by decide)
  have holds := representation_of_reachable reachable
  rcases Option.isSome_iff_exists.mp ends.2 with ⟨after, taken⟩
  refine ⟨store, ends.1.1, ends.1.2, holds.1, holds.2 _ _ _ ⟨?_, (steady_of_steadyStep taken).1⟩⟩
  exact ⟨⟨by decide, by decide, by decide⟩, by decide⟩

omit [AddressCalc] in
/-- The label of a node that has been removed goes on being counted. -/
theorem not_representation_after_remove :
    letI := AddressCalc.plain
    ∃ store, storeSystem.Reachable Admissible store ∧ ¬ Representation store := by
  let := AddressCalc.plain
  let me : Address := { ip6 := 0xFC000000000000000000000000000001, key := 1, path := 1 }
  have run : ([.add formerPeer 1 2, .remove 0].foldlM storeStep (new me 8)).any
      (fun store => store.labelSum.toInt ≠ store.labelTotal) = true := by
    decide +kernel
  rcases (Option.any_eq_true _ _).mp run with ⟨store, run, wrong⟩
  refine ⟨store, ?_, fun representation => of_decide_eq_true wrong representation.counted⟩
  refine TransitionSystem.Reachable.run (.initial ⟨me, 8, by decide, rfl⟩) id ?_ run
  intro before event inside
  rcases List.mem_pair.mp inside with rfl | rfl
  · exact ⟨⟨by decide, by decide, by decide⟩, by decide⟩
  · trivial

end NodeStore

end Cjdns
