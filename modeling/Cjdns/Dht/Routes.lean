import Cjdns.Dht.Representation

/-!
# Routes to one node

A node may be in the table by several routes, but not by a route and by a longer one
through it. An address that is added drops the longer routes and is dropped itself where
it is the longer one. The exception is an address that takes the place of another node
under its path: the entries behind that place are not looked at any more.
-/

namespace Cjdns

variable [AddressCalc]

/-- Two addresses are of different nodes, or neither is on the way to the other. -/
def Address.Unrelated (first second : Address) : Prop :=
  first.key = second.key →
    LabelSplicer.routesThrough first.path second.path = false ∧
      LabelSplicer.routesThrough second.path first.path = false

omit [AddressCalc] in
instance (first second : Address) : Decidable (first.Unrelated second) :=
  inferInstanceAs (Decidable (_ → _))

omit [AddressCalc] in
theorem Address.Unrelated.symm {first second : Address} (unrelated : first.Unrelated second) :
    second.Unrelated first :=
  fun same => (unrelated same.symm).symm

/-- The address has the `ip6` of its key, or none yet. -/
def Address.Honest (addr : Address) : Prop :=
  addr.resolved.ip6 = AddressCalc.addressForPublicKey addr.key

namespace NodeStore

/-- No node is in the table by a route and by another one through it. -/
def NoRedundantRoutes (store : NodeStore) : Prop :=
  store.addresses.Pairwise Address.Unrelated

/--
The address that is added belongs to its key. Where it takes the place of another node,
no entry further on is the same node by a related route.
-/
def Superseding (store : NodeStore) : StoreEvent → Prop
  | .add addr reachDifference _ =>
      addr.Honest ∧ ∀ last middle entry, Arrives addr.resolved store last middle →
        middle.entries[last]? = some entry → entry.body.address.path = addr.path →
        ¬ entry.Matches addr.resolved → reachDifference > 0 →
        ∀ later other, last < later → middle.entries[later]? = some other →
          addr.Unrelated other.body.address
  | .remove _ => True
  | .broken _ => True
  | .update _ _ => True

variable {store after : NodeStore} {addr : Address} {index : ℕ} {entry : Entry}

/-- The table has no redundant routes, and its addresses belong to their keys. -/
structure Sparse (store : NodeStore) : Prop where
  noRedundantRoutes : NoRedundantRoutes store
  honest : ∀ address ∈ store.addresses, address.ip6 = AddressCalc.addressForPublicKey address.key

theorem Sparse.of_same (sparse : Sparse store) (same : after.addresses = store.addresses) :
    Sparse after where
  noRedundantRoutes := by
    rw [NoRedundantRoutes, same]
    exact sparse.noRedundantRoutes
  honest := by
    rw [same]
    exact sparse.honest

theorem Sparse.remove (sparse : Sparse store) (index : ℕ) : Sparse (store.remove index) where
  noRedundantRoutes := by
    rw [NoRedundantRoutes, addresses_remove]
    exact SwapRemove.pairwise_swapRemove Address.Unrelated.symm sparse.noRedundantRoutes
  honest address inside := by
    rw [addresses_remove] at inside
    exact sparse.honest address (SwapRemove.mem_of_mem_swapRemove inside)

/-- An entry that the loop has passed is unrelated to the new address. -/
theorem Sparse.unrelated_of_passed (sparse : Sparse store) (honest : addr.Honest)
    (inside : entry ∈ store.entries) (passed : entry.Passed addr.resolved) :
    addr.Unrelated entry.body.address := by
  intro same
  have belongs := sparse.honest _ (List.mem_map_of_mem (f := (·.body.address)) inside)
  have matching : entry.Matches addr.resolved := by
    constructor
    · rw [entry.addressPrefix_eq, Address.getPrefix, entry.resolved_eq, belongs, Address.getPrefix,
        Address.resolved_resolved, honest, same]
    · rw [Address.isSameIp, Address.resolved_key, same]
      exact beq_self_eq_true _
  have apart := passed.2 matching
  rw [Address.resolved_path] at apart
  exact apart.symm

omit [AddressCalc] in
/-- Writing an address to a position keeps a relation that the address has with all others. -/
theorem pairwise_set {addresses : List Address} (pairwise : addresses.Pairwise Address.Unrelated)
    (others : ∀ position other, position ≠ index → addresses[position]? = some other →
      addr.Unrelated other) :
    (addresses.set index addr).Pairwise Address.Unrelated := by
  by_cases inside : index < addresses.length
  · have rest := (List.getElem_cons_eraseIdx_perm inside).symm.pairwise pairwise .symm
    refine (List.set_perm_cons_eraseIdx inside addr).symm.pairwise ?_ .symm
    refine List.pairwise_cons.mpr ⟨fun other erased => ?_, (List.pairwise_cons.mp rest).2⟩
    rcases List.mem_eraseIdx_iff_getElem?.mp erased with ⟨position, different, found⟩
    exact others position other different found
  · rw [List.set_eq_of_length_le (not_lt.mp inside)]
    exact pairwise

/-- An address that is unrelated to all entries but the one in its place keeps the table sparse. -/
theorem Sparse.written (sparse : Sparse store) (honest : addr.Honest)
    (written : Written index addr.resolved store after)
    (others : ∀ position other, position ≠ index → store.entries[position]? = some other →
      addr.Unrelated other.body.address) : Sparse after := by
  have apart {position : ℕ} {other : Address} (different : position ≠ index)
      (found : store.addresses[position]? = some other) :
      addr.resolved.resolved.Unrelated other := by
    rw [addresses, List.getElem?_map, Option.map_eq_some_iff] at found
    rcases found with ⟨entry, found, rfl⟩
    simpa [Address.Unrelated] using others position entry different found
  have belongs : addr.resolved.resolved.ip6 =
      AddressCalc.addressForPublicKey addr.resolved.resolved.key := by
    rw [Address.resolved_resolved, Address.resolved_key]
    exact honest
  have addresses_eq := written.addresses_eq
  rw [addressesWith] at addresses_eq
  split_ifs at addresses_eq with below
  · refine ⟨?_, fun address inside => ?_⟩
    · rw [NoRedundantRoutes, addresses_eq]
      exact pairwise_set sparse.noRedundantRoutes fun _ _ => apart
    · rw [addresses_eq] at inside
      rcases List.mem_or_eq_of_mem_set inside with earlier | rfl
      · exact sparse.honest address earlier
      · exact belongs
  · refine ⟨?_, fun address inside => ?_⟩
    · rw [NoRedundantRoutes, addresses_eq, List.pairwise_append]
      refine ⟨sparse.noRedundantRoutes, List.pairwise_singleton _ _, fun other inside last only => ?_⟩
      rw [List.mem_singleton.mp only]
      rcases List.mem_iff_getElem?.mp inside with ⟨position, found⟩
      have bound := (List.getElem?_eq_some_iff.mp found).1
      rw [length_addresses] at bound
      exact (apart (by omega) found).symm
    · rw [addresses_eq] at inside
      rcases List.mem_append.mp inside with earlier | last
      · exact sparse.honest address earlier
      · rw [List.mem_singleton.mp last]
        exact belongs

/-- An addition that supersedes no related route keeps the table sparse. -/
theorem Sparse.add {reachDifference : ℤ} {version : BitVec 32} (sparse : Sparse store)
    (superseding : Superseding store (.add addr reachDifference version))
    (taken : store.storeStep (.add addr reachDifference version) = some after) :
    Sparse after := by
  rcases superseding with ⟨honest, superseding⟩
  rcases storeStep_add taken with rfl | ⟨last, middle, arrives, leaves⟩
  · exact sparse
  have middleSparse : Sparse middle :=
    arrives.preserves Sparse (fun _ holds => holds.remove _) sparse
  have passed {earlier : ℕ} {entry : Entry} (before : earlier < last)
      (found : middle.entries[earlier]? = some entry) : addr.Unrelated entry.body.address :=
    middleSparse.unrelated_of_passed honest (List.mem_of_getElem? found)
      (arrives.passed before found)
  rcases leaves with leaves | ⟨position, leaves⟩
  · cases leaves with
    | null => exact middleSparse
  cases leaves with
  | kept sameFrame addresses_eq labelSum_eq => exact middleSparse.of_same addresses_eq
  | put place written =>
      apply middleSparse.written honest written
      intro index entry different found
      cases place with
      | @replaces old atLast other same heard =>
          rw [Address.resolved_path] at same
          rcases Nat.lt_or_gt_of_ne different with before | later
          · exact passed before found
          · exact superseding _ _ _ arrives atLast same other heard _ _ later found
      | fills atEnd room =>
          have bound := (List.getElem?_eq_some_iff.mp found).1
          exact passed (lt_of_lt_of_le bound (List.getElem?_eq_none_iff.mp atEnd)) found
      | evicts atEnd full inside =>
          have bound := (List.getElem?_eq_some_iff.mp found).1
          exact passed (lt_of_lt_of_le bound (List.getElem?_eq_none_iff.mp atEnd)) found

/-- An address takes no one's place if its path is new. -/
theorem superseding_of_fresh {reachDifference : ℤ} {version : BitVec 32} (honest : addr.Honest)
    (fresh : ∀ address ∈ store.addresses, address.path ≠ addr.path) :
    Superseding store (.add addr reachDifference version) := by
  refine ⟨honest, fun last middle entry arrives found same => ?_⟩
  have still : ∀ address ∈ middle.addresses, address.path ≠ addr.path := by
    apply arrives.preserves (fun table => ∀ address ∈ table.addresses, address.path ≠ addr.path) _
      fresh
    intro table index removed _ holds address inside
    rw [addresses_remove] at inside
    exact holds address (SwapRemove.mem_of_mem_swapRemove inside)
  exact absurd same (still _ (List.mem_of_getElem? (addresses_getElem? found)))

theorem sparse_isInvariant : storeSystem.IsInvariant Superseding Sparse where
  initial := by
    rintro _ ⟨myAddress, capacity, _, rfl⟩
    exact ⟨List.Pairwise.nil, fun _ inside => absurd inside List.not_mem_nil⟩
  step {before event after} sparse met taken := by
    cases event with
    | add addr reachDifference version => exact sparse.add met taken
    | remove index =>
        simp only [storeSystem, storeStep, Option.ite_none_right_eq_some, Option.some.injEq] at taken
        exact taken.2 ▸ sparse.remove index
    | broken path =>
        simp only [storeSystem, storeStep, Option.some.injEq] at taken
        subst taken
        apply brokenPathLoop_preserves Sparse _ _ _ _ sparse
        · intro store index entry _ _ _ holds
          exact holds.remove index
        · intro store index entry found holds
          exact holds.of_same (addresses_zeroReach found)
    | update index reach =>
        simp only [storeSystem, storeStep, Option.ite_none_right_eq_some, Option.some.injEq] at taken
        exact taken.2 ▸ sparse.of_same (addresses_updateReach index reach before)

/-- No node is in the table by a route and a longer one through it, in every such run. -/
theorem noRedundantRoutes_of_reachable (reachable : storeSystem.Reachable Superseding store) :
    NoRedundantRoutes store :=
  (reachable.invariant sparse_isInvariant).noRedundantRoutes

/-! ## A path that changes hands -/

/-- A peer, and a node behind it -/
def behindPeer : Address :=
  { ip6 := 0xFC000000000000000000000000000003, key := 3, path := 0x155 }

omit [AddressCalc] in
/-- Two nodes, of which one is behind the other -/
theorem noRedundantRoutes_behindPeer :
    letI := AddressCalc.plain
    ∃ store : NodeStore, store.size = 2 ∧ NoRedundantRoutes store := by
  let := AddressCalc.plain
  let me : Address := { ip6 := 0xFC000000000000000000000000000001, key := 1, path := 1 }
  have run : ((new me 8).storeStep (.add formerPeer 1 2)).any (fun first =>
      decide (first.addresses = [formerPeer]) &&
        (first.storeStep (.add behindPeer 1 2)).any (fun store => store.size = 2)) = true := by
    decide +kernel
  rcases (Option.any_eq_true _ _).mp run with ⟨first, added, run⟩
  rw [Bool.and_eq_true, decide_eq_true_eq] at run
  rcases (Option.any_eq_true _ _).mp run.2 with ⟨store, behind, size⟩
  have starts : storeSystem.Reachable Superseding (new me 8) := .initial ⟨me, 8, by decide, rfl⟩
  have one : Superseding (new me 8) (.add formerPeer 1 2) :=
    superseding_of_fresh (by unfold Address.Honest; decide) (by simp [new, addresses])
  have two : Superseding first (.add behindPeer 1 2) := by
    apply superseding_of_fresh (by unfold Address.Honest; decide)
    rw [run.1]
    decide
  exact ⟨store, of_decide_eq_true size,
    noRedundantRoutes_of_reachable ((starts.step one added).step two behind)⟩

omit [AddressCalc] in
/-- A node that was known behind a peer takes over the path of the peer, and is there twice. -/
theorem redundantRoute_of_takenPath :
    letI := AddressCalc.plain
    ∃ store, storeSystem.Reachable Admissible store ∧ ¬ NoRedundantRoutes store := by
  let := AddressCalc.plain
  let me : Address := { ip6 := 0xFC000000000000000000000000000001, key := 1, path := 1 }
  have run : ([.add formerPeer 1 2, .add behindPeer 1 2,
      .add { behindPeer with path := formerPeer.path } 1 2].foldlM storeStep (new me 8)).any
      (fun store => ¬ store.addresses.Pairwise Address.Unrelated) = true := by
    decide +kernel
  rcases (Option.any_eq_true _ _).mp run with ⟨store, run, redundant⟩
  refine ⟨store, ?_, by rw [NoRedundantRoutes]; exact of_decide_eq_true redundant⟩
  refine TransitionSystem.Reachable.run (.initial ⟨me, 8, by decide, rfl⟩) id ?_ run
  intro before event inside
  simp only [List.mem_cons, List.not_mem_nil, or_false] at inside
  rcases inside with rfl | rfl | rfl
  · exact ⟨⟨by decide, by decide, by decide⟩, by decide⟩
  · exact ⟨⟨by decide, by decide, by decide⟩, by decide⟩
  · exact ⟨⟨by decide, by decide, by decide⟩, by decide⟩

end NodeStore

end Cjdns
