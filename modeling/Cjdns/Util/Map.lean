import Mathlib.Tactic

/-!
# Maps with handles

`util/Map.h`, with keys and handles. The entries are sorted by their handles, which
are given out in ascending order, and a binary search finds an entry by its handle.
Handles are counted without a bound here; the program keeps their low 32 bits.

What a pointer to a value in the map refers to is given by the handle of the entry.
-/

namespace Cjdns

/-- The parts of `hashCodes`, `keys`, `handles` and `values` with one index -/
structure Map.Entry (α β : Type*) where
  handle : ℕ
  key : α
  value : β

/-- `struct Map_CONTEXT` -/
structure Map (α β : Type*) where
  entries : List (Map.Entry α β)
  nextHandle : ℕ
  sorted : entries.Pairwise fun first second => first.handle < second.handle
  below : ∀ entry ∈ entries, entry.handle < nextHandle

namespace Map

variable {α β : Type*}

/-- `Map_new` -/
def empty : Map α β where
  entries := []
  nextHandle := 0
  sorted := .nil
  below := by simp

/-- `Map_indexForKey`, with the entry at the index -/
def indexForKey [DecidableEq α] (key : α) (map : Map α β) : Option (Entry α β) :=
  map.entries.find? fun entry => entry.key = key

/-- The loop of `Map_indexForHandle` -/
def indexForHandleLoop (handle : BitVec 32) (handles : ℕ → BitVec 32) : ℕ → ℕ → ℕ → Option ℕ
  | 0, _, _ => none
  | rounds + 1, base, bufferLen =>
      if bufferLen = 0 then none
      else
        let currentHandle := handles (base + bufferLen / 2)
        if handle ≥ currentHandle then
          if currentHandle = handle then some (base + bufferLen / 2)
          else
            indexForHandleLoop handle handles rounds (base + (bufferLen / 2 + 1))
              ((bufferLen - 1) / 2)
        else indexForHandleLoop handle handles rounds base (bufferLen / 2)

/-- The handles as the program has them -/
def handles (map : Map α β) (index : ℕ) : BitVec 32 :=
  (map.entries[index]?.map fun entry => BitVec.ofNat 32 entry.handle).getD 0

/-- `Map_indexForHandle`, with the entry at the index -/
def indexForHandle (handle : BitVec 32) (map : Map α β) : Option (Entry α β) :=
  (indexForHandleLoop handle map.handles map.entries.length 0 map.entries.length).bind
    fun index => map.entries[index]?

/-- The value that a pointer refers to -/
def find (handle : ℕ) (map : Map α β) : Option β :=
  (map.entries.find? fun entry => entry.handle = handle).map (·.value)

/-- Assignment through a pointer -/
def modify (handle : ℕ) (assign : β → β) (map : Map α β) : Map α β where
  entries := map.entries.map fun entry =>
    if entry.handle = handle then { entry with value := assign entry.value } else entry
  nextHandle := map.nextHandle
  sorted := by
    rw [List.pairwise_map]
    refine map.sorted.imp fun {first second} ascends => ?_
    split_ifs <;> exact ascends
  below := by
    simp only [List.mem_map, forall_exists_index, and_imp, forall_apply_eq_imp_iff₂]
    intro entry inside
    split_ifs <;> exact map.below entry inside

/-- `Map_remove`, for every entry but those that are kept -/
def keep (kept : β → Bool) (map : Map α β) : Map α β where
  entries := map.entries.filter fun entry => kept entry.value
  nextHandle := map.nextHandle
  sorted := map.sorted.filter _
  below entry inside := map.below entry (List.mem_filter.mp inside).1

/-- `Map_remove`, for the entry with a handle -/
def remove (handle : ℕ) (map : Map α β) : Map α β where
  entries := map.entries.filter fun entry => entry.handle ≠ handle
  nextHandle := map.nextHandle
  sorted := map.sorted.filter _
  below entry inside := map.below entry (List.mem_filter.mp inside).1

/-- `Map_put`, for a key that is not in the map -/
def push (key : α) (value : β) (map : Map α β) : Map α β where
  entries := map.entries ++ [{ handle := map.nextHandle, key := key, value := value }]
  nextHandle := map.nextHandle + 1
  sorted := by
    rw [List.pairwise_append]
    refine ⟨map.sorted, List.pairwise_singleton _ _, fun entry inside last only => ?_⟩
    rw [List.mem_singleton.mp only]
    exact map.below entry inside
  below entry inside := by
    rcases List.mem_append.mp inside with earlier | last
    · exact Nat.lt_succ_of_lt (map.below entry earlier)
    · rw [List.mem_singleton.mp last]
      exact Nat.lt_succ_self _

/-- `Map_put`, with the handle of the entry -/
def put [DecidableEq α] (key : α) (value : β) (map : Map α β) : Map α β × ℕ :=
  match map.indexForKey key with
  | some entry => (map.modify entry.handle fun _ => value, entry.handle)
  | none => (map.push key value, map.nextHandle)

variable {map : Map α β} {entry : Entry α β} {handle : ℕ}

theorem eq_of_entries {other : Map α β} (entries : map.entries = other.entries)
    (nextHandle : map.nextHandle = other.nextHandle) : map = other := by
  cases map
  cases other
  simp only at entries nextHandle
  subst entries nextHandle
  rfl

/-! ## Finding entries -/

/-- A handle belongs to one entry. -/
theorem eq_of_handle_eq {other : Entry α β} (inside : entry ∈ map.entries)
    (otherInside : other ∈ map.entries) (same : entry.handle = other.handle) : entry = other := by
  have ascends := List.pairwise_iff_getElem.mp map.sorted
  rcases List.mem_iff_getElem.mp inside with ⟨first, firstInside, rfl⟩
  rcases List.mem_iff_getElem.mp otherInside with ⟨second, secondInside, rfl⟩
  rcases Nat.lt_trichotomy first second with less | rfl | greater
  · exact absurd same (ascends _ _ firstInside secondInside less).ne
  · rfl
  · exact absurd same (ascends _ _ secondInside firstInside greater).ne'

theorem find_eq_some {value : β} (found : map.find handle = some value) :
    ∃ entry ∈ map.entries, entry.handle = handle ∧ entry.value = value := by
  rw [find, Option.map_eq_some_iff] at found
  rcases found with ⟨entry, found, same⟩
  exact ⟨entry, List.mem_of_find?_eq_some found, by simpa using List.find?_some found, same⟩

theorem find_of_mem (inside : entry ∈ map.entries) : map.find entry.handle = some entry.value := by
  have found : (map.entries.find? fun other => other.handle = entry.handle).isSome :=
    List.find?_isSome.mpr ⟨entry, inside, by simp⟩
  rcases Option.isSome_iff_exists.mp found with ⟨other, same⟩
  rw [find, same, Option.map_some,
    eq_of_handle_eq (List.mem_of_find?_eq_some same) inside (by simpa using List.find?_some same)]

theorem indexForKey_eq_some [DecidableEq α] {key : α} (found : map.indexForKey key = some entry) :
    entry ∈ map.entries ∧ entry.key = key :=
  ⟨List.mem_of_find?_eq_some found, by simpa using List.find?_some found⟩

/-- The search finds a handle wherever it is, if the handles ascend. -/
theorem indexForHandleLoop_eq_some_iff {handle : BitVec 32} {handles : ℕ → BitVec 32}
    {rounds base bufferLen index : ℕ} (enough : bufferLen ≤ rounds)
    (ascends : ∀ first second, base ≤ first → first < second → second < base + bufferLen →
      (handles first).toNat < (handles second).toNat) :
    indexForHandleLoop handle handles rounds base bufferLen = some index ↔
      base ≤ index ∧ index < base + bufferLen ∧ handles index = handle := by
  induction rounds generalizing base bufferLen with
  | zero =>
      simp only [indexForHandleLoop, reduceCtorEq, false_iff]
      omega
  | succ rounds ih =>
      simp only [indexForHandleLoop, ge_iff_le, BitVec.le_def]
      by_cases done : bufferLen = 0
      · simp only [done, if_true, reduceCtorEq, false_iff]
        omega
      rw [if_neg done]
      -- Where a handle of the range is found, it is on the side to which the search goes on.
      have side (other : ℕ) (lower : base ≤ other) (upper : other < base + bufferLen)
          (found : handles other = handle) :
          other = base + bufferLen / 2 ∨
            other < base + bufferLen / 2 ∧
              handle.toNat < (handles (base + bufferLen / 2)).toNat ∨
            base + bufferLen / 2 < other ∧
              (handles (base + bufferLen / 2)).toNat < handle.toNat := by
        rcases Nat.lt_trichotomy other (base + bufferLen / 2) with before | same | after
        · exact .inr (.inl ⟨before, found ▸ ascends _ _ lower before (by omega)⟩)
        · exact .inl same
        · exact .inr (.inr ⟨after, found ▸ ascends _ _ (by omega) after upper⟩)
      by_cases here : handles (base + bufferLen / 2) = handle
      · rw [if_pos (by rw [here]), if_pos here, Option.some_inj]
        constructor
        · rintro rfl
          exact ⟨by omega, by omega, here⟩
        · rintro ⟨lower, upper, found⟩
          rcases side index lower upper found with same | ⟨-, less⟩ | ⟨-, more⟩
          · exact same.symm
          · exact absurd less (by rw [here]; exact Nat.lt_irrefl _)
          · exact absurd more (by rw [here]; exact Nat.lt_irrefl _)
      by_cases above : (handles (base + bufferLen / 2)).toNat ≤ handle.toNat
      · rw [if_pos above, if_neg here, ih (by omega) (fun first second lower less upper =>
          ascends first second (by omega) less (by omega))]
        refine ⟨fun ⟨lower, upper, found⟩ => ⟨by omega, by omega, found⟩, ?_⟩
        rintro ⟨lower, upper, found⟩
        rcases side index lower upper found with rfl | ⟨-, less⟩ | ⟨after, -⟩
        · exact absurd found here
        · omega
        · exact ⟨by omega, by omega, found⟩
      · rw [if_neg above, ih (by omega) (fun first second lower less upper =>
          ascends first second lower less (by omega))]
        refine ⟨fun ⟨lower, upper, found⟩ => ⟨lower, by omega, found⟩, ?_⟩
        rintro ⟨lower, upper, found⟩
        rcases side index lower upper found with rfl | ⟨before, -⟩ | ⟨-, more⟩
        · exact absurd found here
        · exact ⟨lower, by omega, found⟩
        · omega

theorem handles_eq {index : ℕ} (inside : index < map.entries.length) :
    map.handles index = BitVec.ofNat 32 map.entries[index].handle := by
  simp [handles, inside]

/-- As long as no handle is truncated, every entry is found by its handle. -/
theorem indexForHandle_of_mem (inside : entry ∈ map.entries) (bounded : map.nextHandle ≤ 2 ^ 32) :
    map.indexForHandle (BitVec.ofNat 32 entry.handle) = some entry := by
  rcases List.mem_iff_getElem.mp inside with ⟨index, within, rfl⟩
  have small (other : ℕ) (within : other < map.entries.length) :
      map.entries[other].handle < 2 ^ 32 :=
    (map.below _ (List.getElem_mem within)).trans_le bounded
  have ascends (first second : ℕ) (_ : 0 ≤ first) (less : first < second)
      (upper : second < 0 + map.entries.length) :
      (map.handles first).toNat < (map.handles second).toNat := by
    rw [Nat.zero_add] at upper
    have sorted := List.pairwise_iff_getElem.mp map.sorted first second (less.trans upper) upper less
    rw [handles_eq (less.trans upper), handles_eq upper, BitVec.toNat_ofNat, BitVec.toNat_ofNat,
      Nat.mod_eq_of_lt (small _ _), Nat.mod_eq_of_lt (small _ _)]
    exact sorted
  have found : indexForHandleLoop (map.handles index) map.handles map.entries.length 0
      map.entries.length = some index :=
    (indexForHandleLoop_eq_some_iff le_rfl ascends).mpr ⟨Nat.zero_le _, by omega, rfl⟩
  rw [indexForHandle, ← handles_eq within, found, Option.bind_some, List.getElem?_eq_getElem within]

theorem indexForHandle_eq_some {handle : BitVec 32}
    (found : map.indexForHandle handle = some entry) : entry ∈ map.entries := by
  rw [indexForHandle, Option.bind_eq_some_iff] at found
  rcases found with ⟨index, -, found⟩
  exact List.mem_of_getElem? found

/-- What the search finds has the handle, sorted or not. -/
theorem indexForHandleLoop_eq_some {handle : BitVec 32} {handles : ℕ → BitVec 32}
    {rounds base bufferLen index : ℕ}
    (found : indexForHandleLoop handle handles rounds base bufferLen = some index) :
    handles index = handle := by
  induction rounds generalizing base bufferLen with
  | zero => cases found
  | succ rounds ih =>
      rw [indexForHandleLoop] at found
      dsimp only at found
      split_ifs at found with empty above here
      · rw [Option.some.injEq] at found
        exact found ▸ here
      · exact ih found
      · exact ih found

theorem handle_of_indexForHandle {handle : BitVec 32}
    (found : map.indexForHandle handle = some entry) : BitVec.ofNat 32 entry.handle = handle := by
  rw [indexForHandle, Option.bind_eq_some_iff] at found
  rcases found with ⟨index, loop, found⟩
  rw [← indexForHandleLoop_eq_some loop, handles, found]
  rfl

/-! ## Changing entries -/

theorem mem_modify {assign : β → β} (inside : entry ∈ (map.modify handle assign).entries) :
    entry ∈ map.entries ∧ entry.handle ≠ handle ∨
      ∃ old ∈ map.entries, old.handle = handle ∧
        entry = { old with value := assign old.value } := by
  rcases List.mem_map.mp inside with ⟨old, oldInside, rfl⟩
  by_cases same : old.handle = handle
  · rw [if_pos same]
    exact .inr ⟨old, oldInside, same, rfl⟩
  · rw [if_neg same]
    exact .inl ⟨oldInside, same⟩

theorem find_modify (assign : β → β) (map : Map α β) :
    (map.modify handle assign).find handle = (map.find handle).map assign := by
  have same (entry : Entry α β) :
      (if entry.handle = handle then { entry with value := assign entry.value } else entry).handle =
        entry.handle := by
    split_ifs <;> rfl
  simp only [find, modify, List.find?_map, Function.comp_def, same, Option.map_map]
  cases found : map.entries.find? fun entry => entry.handle = handle with
  | none => rfl
  | some entry =>
      have found := List.find?_some found
      simp only [decide_eq_true_eq] at found
      simp [found]

theorem mem_modify_of_mem (assign : β → β) (inside : entry ∈ map.entries) :
    (if entry.handle = handle then { entry with value := assign entry.value } else entry) ∈
      (map.modify handle assign).entries :=
  List.mem_map_of_mem inside

theorem mem_modify_of_ne (assign : β → β) (inside : entry ∈ map.entries)
    (other : entry.handle ≠ handle) : entry ∈ (map.modify handle assign).entries := by
  simpa only [if_neg other] using @mem_modify_of_mem _ _ _ _ handle assign inside

theorem mem_modify_self (assign : β → β) (inside : entry ∈ map.entries) :
    { entry with value := assign entry.value } ∈ (map.modify entry.handle assign).entries := by
  simpa only [if_true] using @mem_modify_of_mem _ _ _ _ entry.handle assign inside

@[simp]
theorem mem_remove : entry ∈ (map.remove handle).entries ↔
    entry ∈ map.entries ∧ entry.handle ≠ handle := by
  simp [remove]

theorem indexForKey_keep [DecidableEq α] {key : α} (absent : map.indexForKey key = none)
    (kept : β → Bool) : (map.keep kept).indexForKey key = none := by
  rw [indexForKey, List.find?_eq_none] at absent ⊢
  exact fun entry inside => absent entry (List.mem_filter.mp inside).1

/-! ## What becomes of the entries -/

/-- Every entry goes on from an entry of the map at the start, or is new. -/
structure Evolves (keeps : Entry α β → Entry α β → Prop) (starts : Entry α β → Prop)
    (start map : Map α β) : Prop where
  nextHandle_le : start.nextHandle ≤ map.nextHandle
  entry : ∀ entry ∈ map.entries,
    (∃ old ∈ start.entries, old.handle = entry.handle ∧ keeps old entry) ∨
      (start.nextHandle ≤ entry.handle ∧ starts entry)

variable {keeps : Entry α β → Entry α β → Prop} {starts : Entry α β → Prop} {start : Map α β}

/-- The value of an entry may be replaced. -/
def Allows (keeps : Entry α β → Entry α β → Prop) (starts : Entry α β → Prop)
    (assign : β → β) (entry : Entry α β) : Prop :=
  (∀ old, keeps old entry → keeps old { entry with value := assign entry.value }) ∧
    (starts entry → starts { entry with value := assign entry.value })

namespace Evolves

theorem refl (map : Map α β) (same : ∀ entry ∈ map.entries, keeps entry entry) :
    Evolves keeps starts map map where
  nextHandle_le := le_rfl
  entry entry inside := .inl ⟨entry, inside, rfl, same entry inside⟩

theorem trans {later : Map α β} (first : Evolves keeps starts start map)
    (second : Evolves keeps starts map later)
    (keepsOn : ∀ old entry next, keeps old entry → keeps entry next → keeps old next)
    (startsOn : ∀ entry next, starts entry → keeps entry next → starts next) :
    Evolves keeps starts start later where
  nextHandle_le := first.nextHandle_le.trans second.nextHandle_le
  entry next inside := by
    rcases second.entry next inside with ⟨entry, entryInside, same, kept⟩ | ⟨new, begun⟩
    · rcases first.entry entry entryInside with ⟨old, oldInside, oldSame, oldKept⟩ | ⟨new, begun⟩
      · exact .inl ⟨old, oldInside, oldSame.trans same, keepsOn _ _ _ oldKept kept⟩
      · exact .inr ⟨same ▸ new, startsOn _ _ begun kept⟩
    · exact .inr ⟨first.nextHandle_le.trans new, begun⟩

theorem modify {assign : β → β} (evolves : Evolves keeps starts start map)
    (allowed : ∀ entry ∈ map.entries, entry.handle = handle → Allows keeps starts assign entry) :
    Evolves keeps starts start (map.modify handle assign) where
  nextHandle_le := evolves.nextHandle_le
  entry entry inside := by
    rcases mem_modify inside with ⟨earlier, -⟩ | ⟨entry, earlier, same, rfl⟩
    · exact evolves.entry entry earlier
    · rcases allowed entry earlier same with ⟨keepsOn, startsOn⟩
      exact (evolves.entry entry earlier).imp
        (fun ⟨old, oldInside, same, kept⟩ => ⟨old, oldInside, same, keepsOn _ kept⟩)
        (fun ⟨new, begun⟩ => ⟨new, startsOn begun⟩)

theorem keep (evolves : Evolves keeps starts start map) (kept : β → Bool) :
    Evolves keeps starts start (map.keep kept) where
  nextHandle_le := evolves.nextHandle_le
  entry entry inside := evolves.entry entry (List.mem_filter.mp inside).1

theorem push {key : α} {value : β} (evolves : Evolves keeps starts start map)
    (begins : starts { handle := map.nextHandle, key := key, value := value }) :
    Evolves keeps starts start (map.push key value) where
  nextHandle_le := Nat.le_succ_of_le evolves.nextHandle_le
  entry entry inside := by
    rcases List.mem_append.mp inside with earlier | last
    · exact evolves.entry entry earlier
    · rw [List.mem_singleton.mp last]
      exact .inr ⟨evolves.nextHandle_le, begins⟩

/-- All entries are new to the empty map. -/
theorem starts_of_mem (evolves : Evolves keeps starts empty map) (inside : entry ∈ map.entries) :
    starts entry := by
  rcases evolves.entry entry inside with ⟨_, absent, _⟩ | ⟨_, begun⟩
  · cases absent
  · exact begun

end Evolves

end Map

end Cjdns
