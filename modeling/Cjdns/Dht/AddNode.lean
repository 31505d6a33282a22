import Cjdns.Dht.NodeStore
import Cjdns.Library.SwapRemove

/-!
# What `NodeStore_addNode` does

The loop goes through the table once. It passes the entries that have nothing to do
with the new address and drops those that are reached through it, and it ends at an
entry of the same node, at an entry of another node under the same path, or behind the
last one (`addNodeLoop_ends`).
-/

namespace Cjdns

variable [AddressCalc]

namespace Entry

/-- The prefix and the key of the entry are those of the address. -/
def Matches (addr : Address) (entry : Entry) : Prop :=
  entry.header.addressPrefix = addr.getPrefix ∧ entry.body.address.isSameIp addr = true

/-- The loop has nothing to do with the entry. -/
def Passed (addr : Address) (entry : Entry) : Prop :=
  entry.body.address.path ≠ addr.path ∧
    (entry.Matches addr →
      LabelSplicer.routesThrough entry.body.address.path addr.path = false ∧
        LabelSplicer.routesThrough addr.path entry.body.address.path = false)

/-- The entry is a longer way to the node, through the new path. -/
def Prunes (addr : Address) (entry : Entry) : Prop :=
  entry.Matches addr ∧ entry.body.address.path ≠ addr.path ∧
    LabelSplicer.routesThrough entry.body.address.path addr.path = true

@[simp]
theorem address_withReach (entry : Entry) (reach : BitVec 32) :
    (entry.withReach reach).body.address = entry.body.address :=
  rfl

@[simp]
theorem address_withVersion (entry : Entry) (version : BitVec 32) :
    (entry.withVersion version).body.address = entry.body.address :=
  rfl

@[simp]
theorem address_synchronized (entry : Entry) :
    entry.synchronized.body.address = entry.body.address :=
  rfl

@[simp]
theorem address_adjustReach (entry : Entry) (reachDiff : ℤ) :
    (entry.adjustReach reachDiff).body.address = entry.body.address := by
  simp only [adjustReach]
  split_ifs <;> rfl

@[simp]
theorem address_replaceNode (nodeToReplace : Node) (addr : Address) :
    (replaceNode nodeToReplace addr).body.address = addr.resolved :=
  rfl

end Entry

namespace NodeStore

/-- The addresses of the entries -/
def addresses (store : NodeStore) : List Address :=
  store.entries.map (·.body.address)

@[simp]
theorem length_addresses (store : NodeStore) : store.addresses.length = store.size :=
  List.length_map _

theorem addresses_getElem? {store : NodeStore} {i : ℕ} {entry : Entry}
    (found : store.entries[i]? = some entry) :
    store.addresses[i]? = some entry.body.address := by
  rw [addresses, List.getElem?_map, found, Option.map_some]

/-- Two stores that differ in nothing but their entries and their count -/
structure SameFrame (first second : NodeStore) : Prop where
  thisNodeAddress_eq : second.thisNodeAddress = first.thisNodeAddress
  capacity_eq : second.capacity = first.capacity

namespace SameFrame

theorem refl (store : NodeStore) : SameFrame store store :=
  ⟨rfl, rfl⟩

theorem trans {first second third : NodeStore} (one : SameFrame first second)
    (two : SameFrame second third) : SameFrame first third :=
  ⟨two.1.trans one.1, two.2.trans one.2⟩

end SameFrame

/-! ## Removing an entry -/

theorem remove_eq (index : ℕ) (store : NodeStore) :
    store.remove index =
      { store with entries := SwapRemove.swapRemove index store.entries } := by
  rcases List.eq_nil_or_concat' store.entries with empty | ⟨front, last, concat⟩
  · rw [remove, empty]
    simp only [List.getLast?_nil, SwapRemove.swapRemove_nil]
    rw [← empty]
  · simp only [remove, SwapRemove.swapRemove, concat, List.getLast?_concat]

@[simp]
theorem entries_remove (index : ℕ) (store : NodeStore) :
    (store.remove index).entries = SwapRemove.swapRemove index store.entries := by
  rw [remove_eq]

@[simp]
theorem addresses_remove (index : ℕ) (store : NodeStore) :
    (store.remove index).addresses = SwapRemove.swapRemove index store.addresses := by
  rw [addresses, entries_remove, SwapRemove.map_swapRemove, addresses]

theorem sameFrame_remove (index : ℕ) (store : NodeStore) : SameFrame store (store.remove index) := by
  rw [remove_eq]
  exact ⟨rfl, rfl⟩

theorem size_remove (index : ℕ) (store : NodeStore) : (store.remove index).size = store.size - 1 := by
  rw [size, entries_remove, SwapRemove.length_swapRemove, size]

/-- The entries in front of the one that goes stay where they are. -/
theorem getElem?_remove {index earlier : ℕ} {store : NodeStore} {entry : Entry}
    (found : store.entries[index]? = some entry) (before : earlier < index) :
    (store.remove index).entries[earlier]? = store.entries[earlier]? := by
  have inside := (List.getElem?_eq_some_iff.mp found).1
  rw [entries_remove, ← List.getElem?_take_of_lt before, SwapRemove.take_swapRemove inside,
    List.getElem?_take_of_lt before]

/-! ## Writing an entry -/

/-- The label at a position, which is 0 past the size -/
def labelAt (index : ℕ) (store : NodeStore) : BitVec 64 :=
  (store.addresses[index]?.map (·.path)).getD 0

/-- The count that `replaceNode` leaves -/
def labelSumWith (index : ℕ) (addr : Address) (store : NodeStore) : BitVec 32 :=
  store.labelSum - BitVec.ofNat 32 (Bits.log2x64 (store.labelAt index)) +
    BitVec.ofNat 32 (Bits.log2x64 addr.path)

/-- The addresses after one is written to a position -/
def addressesWith (index : ℕ) (addr : Address) (store : NodeStore) : List Address :=
  if index < store.size then store.addresses.set index addr.resolved
  else store.addresses ++ [addr.resolved]

/-- The result of a call that has written an address -/
structure Written (index : ℕ) (addr : Address) (store after : NodeStore) : Prop where
  sameFrame : SameFrame store after
  addresses_eq : after.addresses = store.addressesWith index addr
  labelSum_eq : after.labelSum = store.labelSumWith index addr

theorem putEntry_cases {index : ℕ} {addr : Address} {finish : Entry → Entry} {store : NodeStore}
    (keeps : ∀ entry, (finish entry).body.address = entry.body.address) :
    ((store.labelSumWith index addr).toInt ≤ 0 ∧ putEntry index addr finish store = .aborted) ∨
      (0 < (store.labelSumWith index addr).toInt ∧
        ∃ after, putEntry index addr finish store = .node index after ∧
          Written index addr store after) := by
  have label : ((store.entries[index]?.map fun entry : Entry => entry.body).getD
      { reach := 0, version := 0, address := { ip6 := 0, key := 0, path := 0 } }).address.path =
      store.labelAt index := by
    rw [labelAt, addresses, List.getElem?_map]
    cases store.entries[index]? <;> rfl
  have counted : store.labelSum - BitVec.ofNat 32 (Bits.log2x64 (store.labelAt index)) +
      BitVec.ofNat 32 (Bits.log2x64 addr.path) = store.labelSumWith index addr := rfl
  simp only [putEntry, label, counted]
  by_cases positive : (store.labelSumWith index addr).toInt > 0
  · refine .inr ⟨positive, _, if_pos positive, ⟨rfl, rfl⟩, ?_, rfl⟩
    simp only [addresses, addressesWith, size]
    by_cases inside : index < store.entries.length
    · simp [inside, List.map_set, keeps]
    · simp [inside, keeps]
  · exact .inl ⟨not_lt.mp positive, if_neg positive⟩

theorem addresses_refresh {index : ℕ} {entry : Entry} {store : NodeStore}
    (found : store.entries[index]? = some entry) (changed : Entry)
    (keeps : changed.body.address = entry.body.address) :
    { store with entries := store.entries.set index changed }.addresses = store.addresses := by
  rw [addresses, addresses, List.map_set, keeps]
  apply List.ext_getElem?
  intro position
  by_cases same : index = position
  · subst same
    rw [List.getElem?_set_self', List.getElem?_map, found]
    rfl
  · rw [List.getElem?_set_ne same]

/-! ## The loop -/

/-- The loop, started on one table, comes to an index with another table. -/
inductive Arrives (addr : Address) (start : NodeStore) : ℕ → NodeStore → Prop where
  | start : Arrives addr start 0 start
  | pass {i : ℕ} {store : NodeStore} {entry : Entry} (earlier : Arrives addr start i store)
      (found : store.entries[i]? = some entry) (passed : entry.Passed addr) :
      Arrives addr start (i + 1) store
  | prune {i : ℕ} {store : NodeStore} {entry : Entry} (earlier : Arrives addr start i store)
      (found : store.entries[i]? = some entry) (prunes : entry.Prunes addr) :
      Arrives addr start i (store.remove i)

/-- How the loop ends at an index -/
inductive Ends (addr : Address) (reachDifference : ℤ) (version : BitVec 32) (i : ℕ)
    (store : NodeStore) : Added → Prop where
  /-- The same node, by the same path or by one that the new path goes through -/
  | refreshed {entry : Entry} (found : store.entries[i]? = some entry)
      (same : entry.Matches addr)
      (near : entry.body.address.path = addr.path ∨
        LabelSplicer.routesThrough addr.path entry.body.address.path = true) :
      Ends addr reachDifference version i store (refresh i entry reachDifference version store)
  /-- Another node under the path, which gives way -/
  | replaced {entry : Entry} (found : store.entries[i]? = some entry)
      (other : ¬ entry.Matches addr) (same : entry.body.address.path = addr.path)
      (heard : reachDifference > 0) :
      Ends addr reachDifference version i store
        (putEntry i addr
          (fun entry => (entry.withReach (BitVec.ofInt 32 reachDifference)).withVersion version)
          store)
  /-- Another node under the path, which stays -/
  | blocked {entry : Entry} (found : store.entries[i]? = some entry)
      (other : ¬ entry.Matches addr) (same : entry.body.address.path = addr.path)
      (told : ¬ reachDifference > 0) : Ends addr reachDifference version i store (.null store)
  | inserted {worstNode : ℕ} (atEnd : store.entries[i]? = none)
      (inside : worstNode = 0 ∨ worstNode < i) :
      Ends addr reachDifference version i store
        (insert worstNode addr reachDifference version store)

variable {addr : Address} {start store : NodeStore} {i : ℕ} {reachDifference : ℤ}
  {version : BitVec 32}

theorem addNodeLoop_ends {rounds worstNode : ℕ} {worstPath : BitVec 64}
    (arrives : Arrives addr start i store) (enough : store.size ≤ rounds + i)
    (inside : worstNode = 0 ∨ worstNode < i) :
    ∃ last after, Arrives addr start last after ∧
      Ends addr reachDifference version last after
        (addNodeLoop addr reachDifference version rounds i worstNode worstPath store) := by
  induction rounds generalizing i worstNode worstPath store with
  | zero =>
      refine ⟨i, store, arrives, .inserted ?_ inside⟩
      rw [List.getElem?_eq_none_iff]
      simpa [size] using enough
  | succ rounds ih =>
      rw [addNodeLoop]
      cases found : store.entries[i]? with
      | none => exact ⟨i, store, arrives, .inserted found inside⟩
      | some entry =>
          have below : i < store.size := (List.getElem?_eq_some_iff.mp found).1
          simp only
          by_cases same : entry.Matches addr
          · rw [if_pos (show _ ∧ _ from same)]
            by_cases path : entry.body.address.path = addr.path
            · rw [if_pos path]
              exact ⟨i, store, arrives, .refreshed found same (.inl path)⟩
            rw [if_neg path]
            by_cases better : LabelSplicer.routesThrough entry.body.address.path addr.path = true
            · rw [if_pos better]
              apply ih (arrives.prune found ⟨same, path, better⟩) _ inside
              rw [size_remove]
              omega
            rw [if_neg better]
            by_cases longer : LabelSplicer.routesThrough addr.path entry.body.address.path = true
            · rw [if_neg (by simp [longer])]
              exact ⟨i, store, arrives, .refreshed found same (.inr longer)⟩
            · rw [if_pos (by simpa using longer)]
              have passed : entry.Passed addr :=
                ⟨path, fun _ => ⟨by simpa using better, by simpa using longer⟩⟩
              exact ih (arrives.pass found passed) (by omega)
                (inside.imp id fun before => Nat.lt_succ_of_lt before)
          · rw [if_neg (show ¬(_ ∧ _) from same)]
            by_cases path : entry.body.address.path = addr.path
            · rw [if_pos path]
              by_cases heard : reachDifference > 0
              · rw [if_pos heard]
                exact ⟨i, store, arrives, .replaced found same path heard⟩
              · rw [if_neg heard]
                exact ⟨i, store, arrives, .blocked found same path heard⟩
            · rw [if_neg path]
              have passed : entry.Passed addr := ⟨path, fun matching => absurd matching same⟩
              apply ih (arrives.pass found passed) (by omega)
              split_ifs
              · exact .inr (Nat.lt_succ_self i)
              · exact inside.imp id fun before => Nat.lt_succ_of_lt before

/-- What every removal preserves, the loop preserves. -/
theorem Arrives.preserves (property : NodeStore → Prop)
    (removes : ∀ {store : NodeStore} {index : ℕ} {entry : Entry},
      store.entries[index]? = some entry → property store → property (store.remove index))
    (arrives : Arrives addr start i store) (holds : property start) : property store := by
  induction arrives with
  | start => exact holds
  | pass _ _ _ ih => exact ih
  | prune _ found _ ih => exact removes found ih

theorem Arrives.le_size (arrives : Arrives addr start i store) : i ≤ store.size := by
  cases arrives with
  | start => exact Nat.zero_le _
  | pass _ found _ => exact (List.getElem?_eq_some_iff.mp found).1
  | prune _ found _ =>
      have below := (List.getElem?_eq_some_iff.mp found).1
      rw [size_remove]
      exact Nat.le_sub_one_of_lt below

/-- All entries in front of the index are passed. -/
theorem Arrives.passed (arrives : Arrives addr start i store) {earlier : ℕ} {entry : Entry}
    (before : earlier < i) (found : store.entries[earlier]? = some entry) : entry.Passed addr := by
  induction arrives generalizing entry with
  | start => exact absurd before (Nat.not_lt_zero _)
  | @pass i store last _ atIndex passed ih =>
      rcases Nat.lt_succ_iff_lt_or_eq.mp before with less | rfl
      · exact ih less found
      · rw [atIndex, Option.some.injEq] at found
        exact found ▸ passed
  | prune _ atIndex _ ih =>
      rw [getElem?_remove atIndex before] at found
      exact ih before found

theorem Arrives.passed_of_end (arrives : Arrives addr start i store)
    (atEnd : store.entries[i]? = none) {entry : Entry} (inside : entry ∈ store.entries) :
    entry.Passed addr := by
  rcases List.mem_iff_getElem?.mp inside with ⟨index, found⟩
  have bound := (List.getElem?_eq_some_iff.mp found).1
  exact arrives.passed (lt_of_lt_of_le bound (List.getElem?_eq_none_iff.mp atEnd)) found

/-- Where the new address goes when the loop has come to an index -/
inductive Place (addr : Address) (reachDifference : ℤ) (i : ℕ) (store : NodeStore) : ℕ → Prop where
  | replaces {entry : Entry} (found : store.entries[i]? = some entry)
      (other : ¬ entry.Matches addr) (same : entry.body.address.path = addr.path)
      (heard : reachDifference > 0) : Place addr reachDifference i store i
  | fills (atEnd : store.entries[i]? = none) (room : store.size < store.capacity) :
      Place addr reachDifference i store store.size
  | evicts {worstNode : ℕ} (atEnd : store.entries[i]? = none)
      (full : store.capacity ≤ store.size) (inside : worstNode = 0 ∨ worstNode < i) :
      Place addr reachDifference i store worstNode

/-- The new address goes into the table, or behind it if there is room. -/
theorem Place.cases {index : ℕ} (arrives : Arrives addr start i store)
    (place : Place addr reachDifference i store index) (roomy : 1 ≤ store.capacity) :
    index < store.size ∨ (index = store.size ∧ store.size < store.capacity) := by
  cases place with
  | replaces found other same heard => exact .inl (List.getElem?_eq_some_iff.mp found).1
  | fills atEnd room => exact .inr ⟨rfl, room⟩
  | evicts atEnd full inside =>
      have bound := arrives.le_size
      rcases inside with rfl | before
      · exact .inl (lt_of_lt_of_le roomy full)
      · exact .inl (lt_of_lt_of_le before bound)

/-- What the call leaves, in terms of the addresses -/
inductive Leaves (addr : Address) (reachDifference : ℤ) (i : ℕ) (store : NodeStore) :
    Added → Prop where
  | kept {index : ℕ} {after : NodeStore} (sameFrame : SameFrame store after)
      (addresses_eq : after.addresses = store.addresses)
      (labelSum_eq : after.labelSum = store.labelSum) :
      Leaves addr reachDifference i store (.node index after)
  | null : Leaves addr reachDifference i store (.null store)
  | put {index : ℕ} {after : NodeStore} (place : Place addr reachDifference i store index)
      (written : Written index addr store after) :
      Leaves addr reachDifference i store (.node index after)
  /-- The count of the labels is not positive. -/
  | overrun {index : ℕ} (place : Place addr reachDifference i store index)
      (negative : (store.labelSumWith index addr).toInt ≤ 0) :
      Leaves addr reachDifference i store .aborted

theorem Place.leaves {index : ℕ} {finish : Entry → Entry}
    (place : Place addr reachDifference i store index)
    (keeps : ∀ entry, (finish entry).body.address = entry.body.address) :
    Leaves addr reachDifference i store (putEntry index addr finish store) := by
  rcases @putEntry_cases _ index addr finish store keeps with
    ⟨negative, outcome⟩ | ⟨_, after, outcome, written⟩
  · rw [outcome]
    exact .overrun place negative
  · rw [outcome]
    exact .put place written

theorem Arrives.leaves {outcome : Added} (arrives : Arrives addr start i store)
    (ends : Ends addr reachDifference version i store outcome) :
    Leaves addr reachDifference i store outcome := by
  cases ends with
  | refreshed found same near =>
      exact .kept ⟨rfl, rfl⟩ (addresses_refresh found _ (by simp)) rfl
  | replaced found other same heard =>
      exact (Place.replaces found other same heard).leaves fun entry => rfl
  | blocked found other same told => exact .null
  | @inserted worstNode atEnd inside =>
      have absent : (store.entries.any fun entry =>
          entry.body.address.ip6 == addr.ip6 && entry.body.address.path == addr.path) = false := by
        rw [List.any_eq_false]
        intro entry member equal
        simp only [Bool.and_eq_true, beq_iff_eq] at equal
        exact (arrives.passed_of_end atEnd member).1 equal.2
      rw [insert, absent, if_neg Bool.false_ne_true]
      have place : Place addr reachDifference i store
          (if store.size ≥ store.capacity then worstNode else store.size) := by
        split_ifs with full
        · exact .evicts atEnd full inside
        · exact .fills atEnd (not_le.mp full)
      exact place.leaves fun entry => by simp

/-- A call that gets to the loop -/
structure Considered (addr : Address) (version : BitVec 32) (store : NodeStore) : Prop where
  compatible : Version.isCompatible Version.CURRENT_PROTOCOL version = true
  stranger : addr.resolved.ip6 ≠ store.thisNodeAddress.ip6
  valid : AddressCalc.validAddress addr.resolved.ip6 = true

theorem addNode_of_considered (considered : Considered addr version store) :
    addNode addr reachDifference version store =
      addNodeLoop addr.resolved reachDifference version store.size 0 0 0 store := by
  simp only [addNode, considered.compatible, considered.stranger, considered.valid, Bool.not_true,
    Bool.false_eq_true, if_false]

theorem addNode_ends (considered : Considered addr version store) :
    ∃ last middle, Arrives addr.resolved store last middle ∧
      Ends addr.resolved reachDifference version last middle
        (addNode addr reachDifference version store) := by
  rw [addNode_of_considered considered]
  exact addNodeLoop_ends .start le_rfl (.inl rfl)

/-- A call does nothing, or it fails on an invalid address, or it gets to the loop. -/
theorem addNode_cases (addr : Address) (reachDifference : ℤ) (version : BitVec 32)
    (store : NodeStore) :
    addNode addr reachDifference version store = .null store ∨
      (AddressCalc.validAddress addr.resolved.ip6 = false ∧
        addNode addr reachDifference version store = .aborted) ∨
      ∃ last middle, Arrives addr.resolved store last middle ∧
        Leaves addr.resolved reachDifference last middle
          (addNode addr reachDifference version store) := by
  by_cases compatible : Version.isCompatible Version.CURRENT_PROTOCOL version = true
  · by_cases stranger : addr.resolved.ip6 = store.thisNodeAddress.ip6
    · left
      simp only [addNode, compatible, stranger, Bool.not_true, Bool.false_eq_true, if_false,
        if_true]
    · by_cases valid : AddressCalc.validAddress addr.resolved.ip6 = true
      · rcases @addNode_ends _ addr store reachDifference version ⟨compatible, stranger, valid⟩ with
          ⟨last, middle, arrives, ends⟩
        exact .inr (.inr ⟨last, middle, arrives, arrives.leaves ends⟩)
      · have invalid : AddressCalc.validAddress addr.resolved.ip6 = false := by simpa using valid
        refine .inr (.inl ⟨invalid, ?_⟩)
        simp only [addNode, compatible, stranger, invalid, Bool.not_true, Bool.not_false,
          Bool.false_eq_true, if_false, if_true]
  · left
    rw [addNode, if_pos (by simpa using compatible)]

end NodeStore

end Cjdns
