import Cjdns.Dht.AddNode

/-!
# Broken paths

`NodeStore_brokenPath` goes through the table from its end. What it removes is replaced
by the last entry, which it has already seen, so that each entry is looked at once. The
entries from the current one on are then what survives of those looked at
(`entries_brokenPathLoop_perm`).
-/

namespace Cjdns

variable [AddressCalc]

namespace Entry

/-- The route to the node begins with a path. -/
def IsBehind (path : BitVec 64) (entry : Entry) : Prop :=
  LabelSplicer.routesThrough entry.body.address.path path = true

/-- The node is one hop away. -/
def IsPeer (entry : Entry) : Prop :=
  LabelSplicer.isOneHop entry.body.address.path = true

instance (path : BitVec 64) (entry : Entry) : Decidable (entry.IsBehind path) :=
  inferInstanceAs (Decidable (_ = _))

instance (entry : Entry) : Decidable entry.IsPeer :=
  inferInstanceAs (Decidable (_ = _))

/-- The entry without reach, if its route begins with a path -/
def zeroedBehind (path : BitVec 64) (entry : Entry) : Entry :=
  if entry.IsBehind path then entry.withReach 0 else entry

@[simp]
theorem isBehind_withReach {path : BitVec 64} {entry : Entry} {reach : BitVec 32} :
    (entry.withReach reach).IsBehind path ↔ entry.IsBehind path :=
  Iff.rfl

@[simp]
theorem isPeer_withReach {entry : Entry} {reach : BitVec 32} :
    (entry.withReach reach).IsPeer ↔ entry.IsPeer :=
  Iff.rfl

@[simp]
theorem isBehind_zeroedBehind {path : BitVec 64} {entry : Entry} :
    (entry.zeroedBehind path).IsBehind path ↔ entry.IsBehind path := by
  unfold zeroedBehind
  split <;> simp

@[simp]
theorem isPeer_zeroedBehind {path : BitVec 64} {entry : Entry} :
    (entry.zeroedBehind path).IsPeer ↔ entry.IsPeer := by
  unfold zeroedBehind
  split <;> simp

end Entry

namespace NodeStore

/-- What survives when a path breaks: all but the entries behind it, of which the peers stay -/
def survivors (path : BitVec 64) (entries : List Entry) : List Entry :=
  (entries.filter fun entry => entry.IsBehind path → entry.IsPeer).map (Entry.zeroedBehind path)

/-- How many entries go when a path breaks -/
def losses (path : BitVec 64) (entries : List Entry) : ℕ :=
  entries.countP fun entry => entry.IsBehind path ∧ ¬entry.IsPeer

@[simp]
theorem survivors_append (path : BitVec 64) (front back : List Entry) :
    survivors path (front ++ back) = survivors path front ++ survivors path back := by
  simp [survivors]

@[simp]
theorem losses_append (path : BitVec 64) (front back : List Entry) :
    losses path (front ++ back) = losses path front + losses path back := by
  simp [losses]

theorem survivors_lost {path : BitVec 64} {entry : Entry} (behind : entry.IsBehind path)
    (far : ¬entry.IsPeer) : survivors path [entry] = [] := by
  simp [survivors, behind, far]

theorem survivors_kept {path : BitVec 64} {entry : Entry}
    (stays : entry.IsBehind path → entry.IsPeer) :
    survivors path [entry] = [entry.zeroedBehind path] := by
  have stays' : decide (entry.IsBehind path → entry.IsPeer) = true := decide_eq_true stays
  simp only [survivors, List.filter_cons, stays', if_true, List.filter_nil, List.map_cons,
    List.map_nil]

theorem losses_kept {path : BitVec 64} {entry : Entry}
    (stays : entry.IsBehind path → entry.IsPeer) : losses path [entry] = 0 := by
  simp only [losses, List.countP_eq_zero, List.mem_singleton, decide_eq_true_eq, not_and,
    not_not, forall_eq]
  exact stays

theorem length_survivors (path : BitVec 64) (entries : List Entry) :
    losses path entries + (survivors path entries).length = entries.length := by
  have whole := List.length_eq_countP_add_countP
    (fun entry : Entry => decide (entry.IsBehind path ∧ ¬entry.IsPeer)) (l := entries)
  rw [survivors, List.length_map, ← List.countP_eq_length_filter, losses, whole]
  congr 1
  apply List.countP_congr
  intro entry _
  simp

/-! ## The loop -/

/-- One step of the loop that removes nothing -/
theorem brokenPathLoop_keep {path : BitVec 64} {i out : ℕ} {store : NodeStore} {entry : Entry}
    (found : store.entries[i]? = some entry) (stays : entry.IsBehind path → entry.IsPeer) :
    brokenPathLoop path (i + 1) out store =
      brokenPathLoop path i out
        { store with entries := store.entries.set i (entry.zeroedBehind path) } := by
  rw [brokenPathLoop, found]
  by_cases behind : entry.IsBehind path
  · have near : LabelSplicer.isOneHop entry.body.address.path = true := stays behind
    rw [Entry.zeroedBehind, if_pos behind]
    simp only [Entry.IsBehind] at behind
    simp [behind, near]
  · rw [Entry.zeroedBehind, if_neg behind]
    simp only [Entry.IsBehind] at behind
    have same : store.entries.set i entry = store.entries := by
      apply List.ext_getElem?
      intro position
      rw [List.getElem?_set]
      split_ifs with here inside
      · rw [← here, found]
      · rw [← here, List.getElem?_eq_none (not_lt.mp inside)]
      · rfl
    simp [behind, same]

/-- One step of the loop that removes an entry -/
theorem brokenPathLoop_remove {path : BitVec 64} {i out : ℕ} {store : NodeStore} {entry : Entry}
    (found : store.entries[i]? = some entry) (behind : entry.IsBehind path)
    (far : ¬entry.IsPeer) :
    brokenPathLoop path (i + 1) out store =
      brokenPathLoop path i (out + 1) (store.remove i) := by
  rw [brokenPathLoop, found]
  simp only [Entry.IsBehind] at behind
  simp only [Entry.IsPeer, Bool.not_eq_true] at far
  simp [behind, far]

/-- From the current entry on the table has what survives of the entries already looked at. -/
theorem entries_brokenPathLoop_perm (path : BitVec 64) (i out : ℕ) (store : NodeStore)
    (inside : i ≤ store.entries.length) :
    (brokenPathLoop path i out store).2.entries.Perm
        (survivors path (store.entries.take i) ++ store.entries.drop i) ∧
      (brokenPathLoop path i out store).1 = out + losses path (store.entries.take i) := by
  induction i generalizing out store with
  | zero => simp [brokenPathLoop, survivors, losses]
  | succ i ih =>
      have below : i < store.entries.length := inside
      have found := List.getElem?_eq_getElem below
      have front : store.entries.take (i + 1) = store.entries.take i ++ [store.entries[i]] :=
        (List.take_concat_get' _ _ below).symm
      rw [front, survivors_append, losses_append]
      by_cases stays : store.entries[i].IsBehind path → store.entries[i].IsPeer
      · rw [brokenPathLoop_keep found stays, survivors_kept stays, losses_kept stays]
        rcases ih out { store with entries := store.entries.set i _ }
          (by simpa using below.le) with ⟨entries, count⟩
        constructor
        · refine entries.trans (List.Perm.of_eq ?_)
          rw [List.take_set_of_le le_rfl, List.append_assoc, List.singleton_append,
            List.drop_eq_getElem_cons (by simpa using below)]
          simp [List.drop_set_of_lt]
        · rw [count, List.take_set_of_le le_rfl, add_zero]
      · rw [Classical.not_imp] at stays
        rw [brokenPathLoop_remove found stays.1 stays.2, survivors_lost stays.1 stays.2]
        have length : (store.remove i).entries.length = store.entries.length - 1 := by
          rw [entries_remove, SwapRemove.length_swapRemove]
        rcases ih (out + 1) (store.remove i) (by omega) with ⟨entries, count⟩
        rw [entries_remove, SwapRemove.take_swapRemove below] at entries count
        constructor
        · rw [List.append_nil]
          exact entries.trans (List.Perm.append_left _ (SwapRemove.drop_swapRemove_perm below))
        · have lost : losses path [store.entries[i]] = 1 := by
            simp [losses, stays.1, stays.2]
          rw [count, lost]
          omega

theorem entries_brokenPath_perm (path : BitVec 64) (store : NodeStore) :
    (store.brokenPath path).2.entries.Perm (survivors path store.entries) ∧
      (store.brokenPath path).1 = losses path store.entries := by
  have loop := entries_brokenPathLoop_perm path store.size 0 store le_rfl
  simpa [brokenPath, size] using loop

/-- What a call that purges a table of a broken path has to leave behind -/
structure PurgesExactly (path : BitVec 64) (before : NodeStore) (result : ℕ × NodeStore) :
    Prop where
  /-- No entry of more than one hop routes through the path. -/
  gone : ∀ entry ∈ result.2.entries, entry.IsBehind path → entry.IsPeer
  /-- A peer that does has no reach, and it is still there. -/
  zeroed : ∀ entry ∈ result.2.entries, entry.IsBehind path → entry.header.reach = 0
  present : ∀ entry ∈ before.entries, entry.IsBehind path → entry.IsPeer →
    entry.withReach 0 ∈ result.2.entries
  /-- The others are there as they were. -/
  others : ∀ entry ∈ before.entries, ¬entry.IsBehind path → entry ∈ result.2.entries
  /-- No entry is there twice, and none is new. -/
  once : result.2.entries.Perm (survivors path before.entries)
  /-- The value is the number of entries that were removed. -/
  count : result.1 = losses path before.entries ∧ result.1 + result.2.size = before.size

/-- A broken path is purged from every table. -/
theorem brokenPath_purgesExactly (path : BitVec 64) (store : NodeStore) :
    PurgesExactly path store (store.brokenPath path) := by
  rcases entries_brokenPath_perm path store with ⟨perm, count⟩
  have origin : ∀ entry ∈ (store.brokenPath path).2.entries, ∃ earlier ∈ store.entries,
      (earlier.IsBehind path → earlier.IsPeer) ∧ earlier.zeroedBehind path = entry := by
    intro entry inside
    rcases List.mem_map.mp (perm.mem_iff.mp inside) with ⟨earlier, kept, same⟩
    have parts := List.mem_filter.mp kept
    exact ⟨earlier, parts.1, of_decide_eq_true parts.2, same⟩
  have survives : ∀ entry ∈ store.entries, (entry.IsBehind path → entry.IsPeer) →
      entry.zeroedBehind path ∈ (store.brokenPath path).2.entries := by
    intro entry inside stays
    apply perm.mem_iff.mpr
    exact List.mem_map_of_mem (List.mem_filter.mpr ⟨inside, decide_eq_true stays⟩)
  exact {
    gone := by
      intro entry inside behind
      rcases origin entry inside with ⟨earlier, _, stays, rfl⟩
      exact Entry.isPeer_zeroedBehind.mpr (stays (Entry.isBehind_zeroedBehind.mp behind))
    zeroed := by
      intro entry inside behind
      rcases origin entry inside with ⟨earlier, _, _, rfl⟩
      rw [Entry.zeroedBehind, if_pos (Entry.isBehind_zeroedBehind.mp behind)]
      rfl
    present := by
      intro entry inside behind near
      have stays := survives entry inside fun _ => near
      rwa [Entry.zeroedBehind, if_pos behind] at stays
    others := by
      intro entry inside elsewhere
      have stays := survives entry inside fun behind => absurd behind elsewhere
      rwa [Entry.zeroedBehind, if_neg elsewhere] at stays
    once := perm
    count := by
      refine ⟨count, ?_⟩
      rw [count, size, perm.length_eq, length_survivors, size] }

end NodeStore

end Cjdns
