import Cjdns.Library.Transition
import Cjdns.Util.Map

/-!
# The arrays of a map

`util/Map.h` with its four arrays, which are moved together, and with its counts and indexes,
some of which have a sign. What the arrays should come to is a finite map from keys to values and
handles. They do as long as every index fits an `int`, and nothing is removed from an empty map.
-/

namespace Cjdns.Map

variable {α β : Type}

/-- The arrays of `struct Map_CONTEXT` -/
structure Arrays (α β : Type) where
  hashCodes : ℤ → BitVec 32
  keys : ℤ → α
  handles : ℤ → BitVec 32
  values : ℤ → β

/-- `struct Map_CONTEXT` -/
structure Context (α β : Type) extends Arrays α β where
  nextHandle : BitVec 32 := 0
  count : BitVec 32 := 0
  capacity : BitVec 32 := 0

/-- `Bits_memmove` of so many elements of an array -/
def memmove {γ : Type} (dest src : ℤ) (count : ℕ) (array : ℤ → γ) : ℤ → γ := fun place =>
  if dest ≤ place ∧ place < dest + count then array (place - dest + src) else array place

namespace Context

/-- The loop of `indexForKey`, with how many rounds are left -/
def indexForKeyLoop [DecidableEq α] (hash : α → BitVec 32) (key : α) (map : Context α β) :
    ℕ → ℕ → ℤ
  | 0, _ => -1
  | rounds + 1, i =>
      if map.hashCodes i = hash key ∧ key = map.keys i then (BitVec.ofNat 32 i).toInt
      else indexForKeyLoop hash key map rounds (i + 1)

/-- `indexForKey` -/
def indexForKey [DecidableEq α] (hash : α → BitVec 32) (key : α) (map : Context α β) : ℤ :=
  indexForKeyLoop hash key map map.count.toNat 0

/-- `indexForHandle` -/
def indexForHandle (handle : BitVec 32) (map : Context α β) : ℤ :=
  match indexForHandleLoop handle (fun index => map.handles index) map.count.toNat 0
      map.count.toNat with
  | some index => (BitVec.ofNat 32 index).toInt
  | none => -1

/-- `remove` -/
def remove (index : ℤ) (map : Context α β) : ℤ × Context α β :=
  if 0 ≤ index ∧ index < map.count.toInt - 1 then
    let moved := (map.count - BitVec.ofInt 32 index - 1).toNat
    (0, { map with
      hashCodes := memmove index (index + 1) moved map.hashCodes
      keys := memmove index (index + 1) moved map.keys
      handles := memmove index (index + 1) moved map.handles
      values := memmove index (index + 1) moved map.values
      count := map.count - 1 })
  else if index = map.count.toInt - 1 then (0, { map with count := map.count - 1 })
  else (-1, map)

/-- An array behind `Allocator_realloc`: what it had, and then what it finds there -/
def realloc {γ : Type} (capacity : ℕ) (found array : ℤ → γ) : ℤ → γ := fun place =>
  if 0 ≤ place ∧ place < capacity then array place else found place

/-- The first part of `put`, which makes room in the arrays -/
def grow (found : Arrays α β) (map : Context α β) : Context α β :=
  if map.count = map.capacity then
    { map with
      hashCodes := realloc map.capacity.toNat found.hashCodes map.hashCodes
      keys := realloc map.capacity.toNat found.keys map.keys
      handles := realloc map.capacity.toNat found.handles map.handles
      values := realloc map.capacity.toNat found.values map.values
      capacity := map.capacity + 10 }
  else map

/-- `put`, where `realloc` finds something behind the arrays -/
def put [DecidableEq α] (hash : α → BitVec 32) (key : α) (value : β) (found : Arrays α β)
    (map : Context α β) : ℤ × Context α β :=
  let map := map.grow found
  let i := map.indexForKey hash key
  if i < 0 then
    let i := map.count.toInt
    (i, { map with
      hashCodes := Function.update map.hashCodes i (hash key)
      keys := Function.update map.keys i key
      handles := Function.update map.handles i map.nextHandle
      values := Function.update map.values i value
      nextHandle := map.nextHandle + 1
      count := map.count + 1 })
  else (i, { map with values := Function.update map.values i value })

end Context

/-! ## The ideal map -/

/-- What an ideal map has for a key -/
structure Association (β : Type) where
  handle : BitVec 32
  value : β

/-- A finite map, with the number of the handles that were given out -/
structure Ideal (α β : Type) where
  associations : α → Option (Association β) := fun _ => none
  given : ℕ := 0

namespace Ideal

/-- A key that has an association keeps its handle. -/
def put [DecidableEq α] (key : α) (value : β) (ideal : Ideal α β) : Ideal α β :=
  match ideal.associations key with
  | some old =>
      { ideal with
        associations := Function.update ideal.associations key (some { old with value := value }) }
  | none => {
      associations := Function.update ideal.associations key
        (some { handle := BitVec.ofNat 32 ideal.given, value := value })
      given := ideal.given + 1 }

def delete [DecidableEq α] (key : α) (ideal : Ideal α β) : Ideal α β :=
  { ideal with associations := Function.update ideal.associations key none }

end Ideal

/-! ## Runs -/

namespace Context

/-- The index of an entry -/
def Inside (map : Context α β) (index : ℤ) : Prop :=
  0 ≤ index ∧ index < map.count.toNat

instance (map : Context α β) (index : ℤ) : Decidable (map.Inside index) :=
  inferInstanceAs (Decidable (0 ≤ index ∧ index < map.count.toNat))

end Context

/-- A call of `remove` -/
structure Removal (α β : Type) where
  index : ℤ
  before : Context α β
  result : ℤ
  after : Context α β

/-- A map with the ideal one, and what was done to it -/
structure History (α β : Type) where
  map : Context α β
  ideal : Ideal α β := {}
  puts : ℕ := 0
  removals : List (Removal α β) := []

inductive Operation (α β : Type) where
  | put (key : α) (value : β) (found : Arrays α β)
  | remove (index : ℤ)

/-- An operation on the map, and what it is for the ideal map -/
def History.perform [DecidableEq α] (hash : α → BitVec 32) (history : History α β) :
    Operation α β → History α β
  | .put key value found =>
      { history with
        map := (history.map.put hash key value found).2
        ideal := history.ideal.put key value
        puts := history.puts + 1 }
  | .remove index =>
      let removed := history.map.remove index
      { history with
        map := removed.2
        ideal := if history.map.Inside index then history.ideal.delete (history.map.keys index)
          else history.ideal
        removals := ⟨index, history.map, removed.1, removed.2⟩ :: history.removals }

/-- The runs of operations on a new map -/
def histories [DecidableEq α] (hash : α → BitVec 32) :
    TransitionSystem (History α β) (Operation α β) where
  initial history := ∃ arrays : Arrays α β, history = { map := { arrays with } }
  step before operation after := after = before.perform hash operation

/-- Handles are not used up. -/
def Lasting (history : History α β) : Operation α β → Prop
  | .put _ _ _ => history.puts + 1 < 2 ^ 32
  | .remove _ => True

/-- Every index fits an `int`, and no entry is removed in front of an empty map. -/
def Indexed (history : History α β) : Operation α β → Prop
  | .put key _ _ => (∃ index, history.map.Inside index ∧ history.map.keys index = key) ∨
      history.map.count.toNat < 2 ^ 31
  | .remove index => history.map.count.toNat < 2 ^ 31 ∧ ¬(history.map.count = 0 ∧ index = -1)

/-- An index is that of the entry of a kind, and minus one where there is none. -/
def Context.Finds (map : Context α β) (kind : ℤ → Prop) (found : ℤ) : Prop :=
  map.Inside found ∧ kind found ∨ found = -1 ∧ ∀ index, map.Inside index → ¬kind index

/-- What the map is for -/
structure History.Refines [DecidableEq α] (hash : α → BitVec 32) (history : History α β) :
    Prop where
  holds : ∀ key association, history.ideal.associations key = some association ↔
    ∃ index, history.map.Inside index ∧ history.map.keys index = key ∧
      history.map.handles index = association.handle ∧
      history.map.values index = association.value
  distinct : ∀ first second, history.map.Inside first → history.map.Inside second →
    history.map.keys first = history.map.keys second → first = second
  ascending : ∀ first second, history.map.Inside first → history.map.Inside second →
    first < second → (history.map.handles first).toNat < (history.map.handles second).toNat
  byKey : ∀ key, history.map.Finds (fun index => history.map.keys index = key)
    (history.map.indexForKey hash key)
  byHandle : ∀ handle, history.map.Finds (fun index => history.map.handles index = handle)
    (history.map.indexForHandle handle)
  removes : ∀ removal ∈ history.removals,
    (removal.before.Inside removal.index → removal.result = 0) ∧
      (¬removal.before.Inside removal.index →
        removal.result = -1 ∧ removal.after = removal.before)

/-! ## What one operation does -/

namespace Context

variable {map after : Context α β} {hash : α → BitVec 32} {index : ℤ}

theorem toInt_ofNat {index : ℕ} (small : index < 2 ^ 31) :
    (BitVec.ofNat 32 index).toInt = index := by
  rw [BitVec.toInt_eq_toNat_cond, BitVec.toNat_ofNat, Nat.mod_eq_of_lt (by omega),
    if_pos (by omega)]

theorem toInt_count (small : map.count.toNat < 2 ^ 31) : map.count.toInt = map.count.toNat := by
  rw [BitVec.toInt_eq_toNat_cond, if_pos (by omega)]

/-- One index of a map has the entry that another has in another map. -/
structure SameEntry (left right : Context α β) (first second : ℤ) : Prop where
  hashCodes : left.hashCodes first = right.hashCodes second
  keys : left.keys first = right.keys second
  handles : left.handles first = right.handles second
  values : left.values first = right.values second

/-- Making room leaves the entries where they are. -/
theorem grow_spec (found : Arrays α β) (room : map.count.toNat ≤ map.capacity.toNat)
    (small : map.count.toNat ≤ 2 ^ 31) :
    (map.grow found).count = map.count ∧ (map.grow found).nextHandle = map.nextHandle ∧
      map.count.toNat < (map.grow found).capacity.toNat ∧
      ∀ place, map.Inside place → SameEntry (map.grow found) map place place := by
  rw [grow]
  split_ifs with full
  · have capacity : (map.capacity + 10).toNat = map.capacity.toNat + 10 := by
      rw [BitVec.toNat_add, ← full]
      exact Nat.mod_eq_of_lt (show map.count.toNat + 10 < 2 ^ 32 by omega)
    refine ⟨rfl, rfl, by dsimp only; omega, fun place inside => ?_⟩
    have within : 0 ≤ place ∧ place < map.capacity.toNat :=
      ⟨inside.1, lt_of_lt_of_le inside.2 (by exact_mod_cast room)⟩
    constructor <;> exact if_pos within
  · have apart : map.count.toNat ≠ map.capacity.toNat := fun same =>
      full (BitVec.eq_of_toNat_eq same)
    exact ⟨rfl, rfl, by omega, fun place _ => ⟨rfl, rfl, rfl, rfl⟩⟩

/-- An index, when the one that is removed is passed over -/
def skip (index place : ℤ) : ℤ :=
  if index ≤ place then place + 1 else place

/-- Removing an entry moves those behind it down by one. -/
theorem remove_of_inside (small : map.count.toNat < 2 ^ 31) (inside : map.Inside index) :
    (map.remove index).1 = 0 ∧ (map.remove index).2.nextHandle = map.nextHandle ∧
      (map.remove index).2.capacity = map.capacity ∧
      (map.remove index).2.count.toNat + 1 = map.count.toNat ∧
      ∀ place, (map.remove index).2.Inside place →
        SameEntry (map.remove index).2 map place (skip index place) := by
  rcases inside with ⟨lower, upper⟩
  have positive : 1 ≤ map.count.toNat := by omega
  have less : (map.count - 1).toNat = map.count.toNat - 1 :=
    BitVec.toNat_sub_of_le (show 1 ≤ map.count.toNat from positive)
  have count : (map.count - 1).toNat + 1 = map.count.toNat := by omega
  rw [remove, toInt_count small]
  by_cases last : index = map.count.toNat - 1
  · rw [if_neg (by omega), if_pos last]
    refine ⟨rfl, rfl, rfl, count, fun place within => ?_⟩
    have before : ¬index ≤ place := by
      have := within.2
      dsimp only at this
      omega
    rw [skip, if_neg before]
    exact ⟨rfl, rfl, rfl, rfl⟩
  · have word : (BitVec.ofInt 32 index).toNat = index.toNat := by
      rw [BitVec.toNat_ofInt]
      omega
    have moved : (map.count - BitVec.ofInt 32 index - 1).toNat =
        map.count.toNat - index.toNat - 1 := by
      have first : (map.count - BitVec.ofInt 32 index).toNat = map.count.toNat - index.toNat := by
        rw [BitVec.toNat_sub_of_le (by rw [BitVec.le_def, word]; omega), word]
      rw [BitVec.toNat_sub_of_le (by rw [BitVec.le_def, first]; change 1 ≤ _; omega), first]
      rfl
    rw [if_pos ⟨lower, by omega⟩]
    refine ⟨rfl, rfl, rfl, count, fun place within => ?_⟩
    have behind {γ : Type} (array : ℤ → γ) :
        memmove index (index + 1) (map.count - BitVec.ofInt 32 index - 1).toNat array place =
          array (skip index place) := by
      have := within.2
      dsimp only at this
      rw [memmove, moved, skip]
      by_cases after : index ≤ place
      · rw [if_pos ⟨after, by omega⟩, if_pos after]
        congr 1
        omega
      · rw [if_neg (fun both => after both.1), if_neg after]
    exact ⟨behind _, behind _, behind _, behind _⟩

/-- Removing at any other index -/
theorem remove_of_outside (small : map.count.toNat < 2 ^ 31) (outside : ¬map.Inside index)
    (filled : ¬(map.count = 0 ∧ index = -1)) : map.remove index = (-1, map) := by
  rw [Inside] at outside
  rw [remove, toInt_count small, if_neg (by omega), if_neg ?_]
  rintro rfl
  apply filled
  have empty : map.count.toNat = 0 := by omega
  exact ⟨BitVec.eq_of_toNat_eq empty, by omega⟩

/-- The index that the loop returns -/
theorem indexForKeyLoop_spec [DecidableEq α] {key : α} {rounds i : ℕ} (small : i + rounds ≤ 2 ^ 31)
    (hashed : ∀ index : ℕ, i ≤ index → index < i + rounds →
      map.hashCodes index = hash (map.keys index)) :
    (∃ index : ℕ, i ≤ index ∧ index < i + rounds ∧ map.keys index = key ∧
        indexForKeyLoop hash key map rounds i = index) ∨
      indexForKeyLoop hash key map rounds i = -1 ∧
        ∀ index : ℕ, i ≤ index → index < i + rounds → map.keys index ≠ key := by
  induction rounds generalizing i with
  | zero => exact .inr ⟨rfl, fun index lower upper => by omega⟩
  | succ rounds ih =>
      rw [indexForKeyLoop]
      by_cases here : key = map.keys i
      · have within : i < 2 ^ 31 := by omega
        rw [if_pos ⟨by rw [here, hashed i le_rfl (by omega)], here⟩, toInt_ofNat within]
        exact .inl ⟨i, le_rfl, by omega, here.symm, rfl⟩
      · rw [if_neg (fun both => here both.2)]
        rcases @ih (i + 1) (by omega)
          (fun index lower upper => hashed index (by omega) (by omega)) with
          ⟨index, lower, upper, same, found⟩ | ⟨nothing, absent⟩
        · exact .inl ⟨index, by omega, by omega, same, found⟩
        · refine .inr ⟨nothing, fun index lower upper => ?_⟩
          rcases Nat.eq_or_lt_of_le lower with rfl | later
          · exact fun same => here same.symm
          · exact absent index later (by omega)

end Context

/-! ## The invariant -/

/-- The arrays represent the ideal map. -/
structure Represents (hash : α → BitVec 32) (map : Context α β) (ideal : Ideal α β) : Prop where
  room : map.count.toNat ≤ map.capacity.toNat
  small : map.count.toNat ≤ 2 ^ 31
  next : map.nextHandle = BitVec.ofNat 32 ideal.given
  below : ∀ index, map.Inside index → (map.handles index).toNat < ideal.given
  hashed : ∀ index, map.Inside index → map.hashCodes index = hash (map.keys index)
  distinct : ∀ first second, map.Inside first → map.Inside second →
    map.keys first = map.keys second → first = second
  ascending : ∀ first second, map.Inside first → map.Inside second → first < second →
    (map.handles first).toNat < (map.handles second).toNat
  holds : ∀ key association, ideal.associations key = some association ↔
    ∃ index, map.Inside index ∧ map.keys index = key ∧
      map.handles index = association.handle ∧ map.values index = association.value

namespace Represents

open Context

variable {hash : α → BitVec 32} {map after : Context α β} {ideal : Ideal α β} {key : α} {index : ℤ}

theorem new (arrays : Arrays α β) : Represents hash { arrays with } ({} : Ideal α β) := by
  have outside (index : ℤ) : ¬Context.Inside ({ arrays with } : Context α β) index := fun inside =>
    absurd (lt_of_le_of_lt inside.1 inside.2) (lt_irrefl _)
  exact {
    room := le_rfl
    small := Nat.zero_le _
    next := rfl
    below := fun index inside => absurd inside (outside index)
    hashed := fun index inside => absurd inside (outside index)
    distinct := fun first _ inside => absurd inside (outside first)
    ascending := fun first _ inside => absurd inside (outside first)
    holds := fun key association => by
      refine iff_of_false (by simp) ?_
      rintro ⟨index, inside, -⟩
      exact outside index inside }

/-- A key is found at the index of its entry. -/
theorem indexForKey_spec [DecidableEq α] (represents : Represents hash map ideal) (key : α) :
    map.Finds (fun index => map.keys index = key) (map.indexForKey hash key) := by
  have spec := @indexForKeyLoop_spec α β map hash _ key map.count.toNat 0
    (by have := represents.small; omega)
    (fun index _ upper => represents.hashed index ⟨by omega, by omega⟩)
  rcases spec with ⟨index, -, upper, same, found⟩ | ⟨nothing, absent⟩
  · refine .inl ?_
    rw [Context.indexForKey, found]
    exact ⟨⟨by omega, by omega⟩, same⟩
  · refine .inr ⟨nothing, fun index inside same => ?_⟩
    rcases inside with ⟨lower, upper⟩
    apply absent index.toNat (by omega) (by omega)
    rw [Int.toNat_of_nonneg lower]
    exact same

/-- A handle is found at the index of its entry. -/
theorem indexForHandle_spec (represents : Represents hash map ideal) (handle : BitVec 32) :
    map.Finds (fun index => map.handles index = handle) (map.indexForHandle handle) := by
  have small := represents.small
  have spec (index : ℕ) := @indexForHandleLoop_eq_some_iff handle
    (fun index : ℕ => map.handles index) map.count.toNat 0 map.count.toNat index le_rfl
    (fun first second _ less upper => represents.ascending first second ⟨by omega, by omega⟩
      ⟨by omega, by omega⟩ (by omega))
  rw [Context.indexForHandle]
  cases found : indexForHandleLoop handle (fun index : ℕ => map.handles index) map.count.toNat 0
      map.count.toNat with
  | some index =>
      rcases (spec index).mp found with ⟨-, upper, same⟩
      dsimp only
      rw [toInt_ofNat (by omega)]
      exact .inl ⟨⟨by omega, by omega⟩, same⟩
  | none =>
      refine .inr ⟨rfl, fun index inside same => ?_⟩
      rcases inside with ⟨lower, upper⟩
      have there := (spec index.toNat).mpr ⟨by omega, by omega, by
        rw [Int.toNat_of_nonneg lower]
        exact same⟩
      rw [found] at there
      cases there

/-- Only the entries matter. -/
theorem of_sameEntry (represents : Represents hash map ideal) (count : after.count = map.count)
    (next : after.nextHandle = map.nextHandle)
    (room : after.count.toNat ≤ after.capacity.toNat)
    (same : ∀ place, map.Inside place → SameEntry after map place place) :
    Represents hash after ideal := by
  have inside : ∀ place, after.Inside place ↔ map.Inside place := fun place => by
    rw [Inside, Inside, count]
  exact {
    room := room
    small := count ▸ represents.small
    next := next.trans represents.next
    below := fun index there => by
      rw [(same index ((inside index).mp there)).handles]
      exact represents.below index ((inside index).mp there)
    hashed := fun index there => by
      rw [(same index ((inside index).mp there)).hashCodes,
        (same index ((inside index).mp there)).keys]
      exact represents.hashed index ((inside index).mp there)
    distinct := fun first second one two => by
      rw [(same first ((inside first).mp one)).keys, (same second ((inside second).mp two)).keys]
      exact represents.distinct first second ((inside first).mp one) ((inside second).mp two)
    ascending := fun first second one two => by
      rw [(same first ((inside first).mp one)).handles,
        (same second ((inside second).mp two)).handles]
      exact represents.ascending first second ((inside first).mp one) ((inside second).mp two)
    holds := fun key association => by
      rw [represents.holds]
      refine exists_congr fun index => ?_
      rw [inside]
      refine and_congr_right fun there => ?_
      rw [(same index there).keys, (same index there).handles, (same index there).values] }

theorem grow (represents : Represents hash map ideal) (found : Arrays α β) :
    Represents hash (map.grow found) ideal := by
  rcases grow_spec found represents.room represents.small with ⟨count, next, room, same⟩
  exact represents.of_sameEntry count next (by rw [count]; omega) same

variable [DecidableEq α]

/-- The value of a key is replaced. -/
theorem replace (represents : Represents hash map ideal) (inside : map.Inside index)
    (same : map.keys index = key) (value : β) :
    Represents hash { map with values := Function.update map.values index value }
      (ideal.put key value) := by
  have present : ideal.associations key =
      some { handle := map.handles index, value := map.values index } :=
    (represents.holds _ _).mpr ⟨index, inside, same, rfl, rfl⟩
  have put : ideal.put key value = { ideal with
      associations := Function.update ideal.associations key
        (some { handle := map.handles index, value := value }) } := by
    simp only [Ideal.put, present]
  rw [put]
  refine { represents with holds := fun other association => ?_ }
  dsimp only
  by_cases own : other = key
  · subst own
    rw [Function.update_self, Option.some.injEq]
    constructor
    · rintro rfl
      exact ⟨index, inside, same, rfl, Function.update_self _ _ _⟩
    · rintro ⟨place, there, shared, handle, worth⟩
      have here := represents.distinct place index there inside (shared.trans same.symm)
      subst here
      rw [Function.update_self] at worth
      rw [handle, worth]
  · rw [Function.update_of_ne own, represents.holds]
    refine exists_congr fun place => and_congr_right fun there => and_congr_right fun shared => ?_
    have apart : place ≠ index := by
      rintro rfl
      exact own (shared.symm.trans same)
    rw [Function.update_of_ne apart]

/-- A key that is not in the map is put behind the others. -/
theorem push (represents : Represents hash map ideal) (room : map.count.toNat < map.capacity.toNat)
    (small : map.count.toNat < 2 ^ 31) (lasting : ideal.given < 2 ^ 32)
    (absent : ∀ place, map.Inside place → map.keys place ≠ key) (value : β) :
    Represents hash { map with
        hashCodes := Function.update map.hashCodes map.count.toInt (hash key)
        keys := Function.update map.keys map.count.toInt key
        handles := Function.update map.handles map.count.toInt map.nextHandle
        values := Function.update map.values map.count.toInt value
        nextHandle := map.nextHandle + 1
        count := map.count + 1 }
      (ideal.put key value) := by
  have none : ideal.associations key = none := by
    rcases found : ideal.associations key with _ | association
    · rfl
    · rcases (represents.holds _ _).mp found with ⟨place, inside, same, -⟩
      exact absurd same (absent place inside)
  have put : ideal.put key value = {
      associations := Function.update ideal.associations key
        (some { handle := map.nextHandle, value := value })
      given := ideal.given + 1 } := by
    simp only [Ideal.put, none, represents.next]
  have more : (map.count + 1).toNat = map.count.toNat + 1 := by
    rw [BitVec.toNat_add]
    exact Nat.mod_eq_of_lt (show map.count.toNat + 1 < 2 ^ 32 by omega)
  have last : map.nextHandle.toNat = ideal.given := by
    rw [represents.next, BitVec.toNat_ofNat, Nat.mod_eq_of_lt lasting]
  rw [put, toInt_count small]
  -- an index of the longer map is the new one, or one of the others
  have split : ∀ place : ℤ, 0 ≤ place ∧ place < (map.count + 1).toNat →
      place = map.count.toNat ∨ map.Inside place ∧ place ≠ map.count.toNat := by
    intro place inside
    rw [more] at inside
    rw [Inside]
    omega
  have newest : (0 : ℤ) ≤ map.count.toNat ∧ (map.count.toNat : ℤ) < (map.count + 1).toNat := by
    omega
  have older : ∀ place, map.Inside place → 0 ≤ place ∧ place < (map.count + 1).toNat ∧
      place ≠ map.count.toNat := by
    intro place inside
    rw [Inside] at inside
    omega
  exact {
    room := by
      rw [more]
      exact room
    small := by
      rw [more]
      exact small
    next := by rw [represents.next, BitVec.ofNat_add]; rfl
    below := fun place inside => by
      dsimp only
      rcases split place inside with rfl | ⟨earlier, apart⟩
      · rw [Function.update_self, last]
        exact Nat.lt_succ_self _
      · rw [Function.update_of_ne apart]
        exact Nat.lt_succ_of_lt (represents.below place earlier)
    hashed := fun place inside => by
      dsimp only
      rcases split place inside with rfl | ⟨earlier, apart⟩
      · rw [Function.update_self, Function.update_self]
      · rw [Function.update_of_ne apart, Function.update_of_ne apart]
        exact represents.hashed place earlier
    distinct := fun first second one two same => by
      dsimp only at same
      rcases split first one with rfl | ⟨earlier, apart⟩ <;>
        rcases split second two with rfl | ⟨before, other⟩
      · rfl
      · rw [Function.update_self, Function.update_of_ne other] at same
        exact absurd same.symm (absent second before)
      · rw [Function.update_self, Function.update_of_ne apart] at same
        exact absurd same (absent first earlier)
      · rw [Function.update_of_ne apart, Function.update_of_ne other] at same
        exact represents.distinct first second earlier before same
    ascending := fun first second one two less => by
      rcases split first one with rfl | ⟨earlier, apart⟩
      · have := two.2
        dsimp only at this
        omega
      dsimp only
      rw [Function.update_of_ne apart]
      rcases split second two with rfl | ⟨before, other⟩
      · rw [Function.update_self, last]
        exact represents.below first earlier
      · rw [Function.update_of_ne other]
        exact represents.ascending first second earlier before less
    holds := fun other association => by
      dsimp only
      by_cases own : other = key
      · subst own
        rw [Function.update_self, Option.some.injEq]
        constructor
        · rintro rfl
          exact ⟨map.count.toNat, newest, Function.update_self _ _ _, Function.update_self _ _ _,
            Function.update_self _ _ _⟩
        · rintro ⟨place, inside, same, handle, worth⟩
          rcases split place inside with rfl | ⟨earlier, apart⟩
          · rw [Function.update_self] at handle worth
            rw [handle, worth]
          · rw [Function.update_of_ne apart] at same
            exact absurd same (absent place earlier)
      · rw [Function.update_of_ne own, represents.holds]
        constructor
        · rintro ⟨place, inside, same, handle, worth⟩
          rcases older place inside with ⟨lower, upper, apart⟩
          refine ⟨place, ⟨lower, upper⟩, ?_, ?_, ?_⟩ <;> rwa [Function.update_of_ne apart]
        · rintro ⟨place, inside, same, handle, worth⟩
          rcases split place inside with rfl | ⟨earlier, apart⟩
          · rw [Function.update_self] at same
            exact absurd same.symm own
          · rw [Function.update_of_ne apart] at same handle worth
            exact ⟨place, earlier, same, handle, worth⟩ }

theorem put (represents : Represents hash map ideal) (lasting : ideal.given < 2 ^ 32)
    (indexed : (∃ index, map.Inside index ∧ map.keys index = key) ∨ map.count.toNat < 2 ^ 31)
    (value : β) (found : Arrays α β) :
    Represents hash (map.put hash key value found).2 (ideal.put key value) := by
  rcases grow_spec found represents.room represents.small with ⟨count, -, room, same⟩
  have grown := represents.grow found
  have inside : ∀ place, (map.grow found).Inside place ↔ map.Inside place := fun place => by
    rw [Inside, Inside, count]
  simp only [Context.put]
  rcases grown.indexForKey_spec key with ⟨there, shared⟩ | ⟨nothing, absent⟩
  · rw [if_neg (not_lt.mpr there.1)]
    exact grown.replace there shared value
  · have small : map.count.toNat < 2 ^ 31 := by
      rcases indexed with ⟨index, there, shared⟩ | small
      · rw [← (same index there).keys] at shared
        exact absurd shared (absent index ((inside index).mpr there))
      · exact small
    rw [nothing, if_pos (by norm_num)]
    exact grown.push (by rw [count]; exact room) (by rw [count]; exact small) lasting absent value

theorem remove (represents : Represents hash map ideal) (small : map.count.toNat < 2 ^ 31)
    (inside : map.Inside index) :
    Represents hash (map.remove index).2 (ideal.delete (map.keys index)) := by
  rcases remove_of_inside small inside with ⟨-, next, capacity, count, same⟩
  have room := represents.room
  have within : ∀ place, (map.remove index).2.Inside place → map.Inside (skip index place) ∧
      skip index place ≠ index := by
    intro place there
    rw [Inside] at there ⊢
    rw [skip]
    split_ifs <;> omega
  have ordered : ∀ first second : ℤ, first < second ↔ skip index first < skip index second := by
    intro first second
    rw [skip, skip]
    split_ifs <;> omega
  have reached : ∀ place, map.Inside place → place ≠ index →
      ∃ lower, (map.remove index).2.Inside lower ∧ skip index lower = place := by
    intro place there apart
    simp only [Inside, skip] at there inside ⊢
    by_cases before : place < index
    · exact ⟨place, by omega, if_neg (by omega)⟩
    · exact ⟨place - 1, by omega, by rw [if_pos (by omega)]; omega⟩
  exact {
    room := by rw [capacity]; omega
    small := by omega
    next := next.trans represents.next
    below := fun place there => by
      rw [(same place there).handles]
      exact represents.below _ (within place there).1
    hashed := fun place there => by
      rw [(same place there).hashCodes, (same place there).keys]
      exact represents.hashed _ (within place there).1
    distinct := fun first second one two shared => by
      rw [(same first one).keys, (same second two).keys] at shared
      have equal := represents.distinct _ _ (within first one).1 (within second two).1 shared
      have := ordered first second
      have := ordered second first
      omega
    ascending := fun first second one two less => by
      rw [(same first one).handles, (same second two).handles]
      exact represents.ascending _ _ (within first one).1 (within second two).1
        ((ordered first second).mp less)
    holds := fun key association => by
      simp only [Ideal.delete]
      by_cases own : key = map.keys index
      · rw [own, Function.update_self]
        refine iff_of_false (by simp) ?_
        rintro ⟨place, there, shared, -⟩
        rw [(same place there).keys] at shared
        exact (within place there).2
          (represents.distinct _ _ (within place there).1 inside shared)
      · rw [Function.update_of_ne own, represents.holds]
        constructor
        · rintro ⟨place, there, shared, handle, worth⟩
          have apart : place ≠ index := by
            rintro rfl
            exact own shared.symm
          rcases reached place there apart with ⟨lower, lowerThere, rfl⟩
          refine ⟨lower, lowerThere, ?_, ?_, ?_⟩
          · rw [(same lower lowerThere).keys, shared]
          · rw [(same lower lowerThere).handles, handle]
          · rw [(same lower lowerThere).values, worth]
        · rintro ⟨place, there, shared, handle, worth⟩
          rw [(same place there).keys] at shared
          rw [(same place there).handles] at handle
          rw [(same place there).values] at worth
          exact ⟨skip index place, (within place there).1, shared, handle, worth⟩ }

end Represents

/-! ## Every run -/

/-- What holds along the runs that keep to the indexes -/
structure Faithful [DecidableEq α] (hash : α → BitVec 32) (history : History α β) : Prop where
  represents : Represents hash history.map history.ideal
  given : history.ideal.given ≤ history.puts
  puts : history.puts < 2 ^ 32
  removes : ∀ removal ∈ history.removals,
    (removal.before.Inside removal.index → removal.result = 0) ∧
      (¬removal.before.Inside removal.index →
        removal.result = -1 ∧ removal.after = removal.before)

variable [DecidableEq α] {hash : α → BitVec 32} {history : History α β}

theorem Ideal.given_put_le (key : α) (value : β) (ideal : Ideal α β) :
    (ideal.put key value).given ≤ ideal.given + 1 := by
  rw [Ideal.put]
  split <;> simp

theorem faithful_isInvariant (hash : α → BitVec 32) :
    (histories hash).IsInvariant
      (fun history operation => Lasting history operation ∧ Indexed history operation)
      (Faithful (β := β) hash) where
  initial := by
    rintro history ⟨arrays, rfl⟩
    exact ⟨Represents.new arrays, le_rfl, by norm_num, by simp⟩
  step := by
    rintro before operation after faithful ⟨lasting, indexed⟩ taken
    have given := faithful.given
    have puts := faithful.puts
    subst taken
    cases operation with
    | put key value found =>
        have further := Ideal.given_put_le key value before.ideal
        exact {
          represents := faithful.represents.put (by omega) indexed value found
          given := by simp only [History.perform]; omega
          puts := lasting
          removes := faithful.removes }
    | remove index =>
        rcases indexed with ⟨small, filled⟩
        by_cases inside : before.map.Inside index
        · exact {
            represents := by
              simp only [History.perform, if_pos inside]
              exact faithful.represents.remove small inside
            given := by
              simp only [History.perform, if_pos inside]
              exact given
            puts := puts
            removes := fun removal member => by
              rcases List.mem_cons.mp member with rfl | earlier
              · exact ⟨fun _ => (Context.remove_of_inside small inside).1,
                  fun outside => absurd inside outside⟩
              · exact faithful.removes removal earlier }
        · have refused := Context.remove_of_outside small inside filled
          exact {
            represents := by
              simp only [History.perform, if_neg inside, refused]
              exact faithful.represents
            given := by
              simp only [History.perform, if_neg inside]
              exact given
            puts := puts
            removes := fun removal member => by
              rcases List.mem_cons.mp member with rfl | earlier
              · refine ⟨fun there => absurd there inside, fun _ => ?_⟩
                dsimp only
                rw [refused]
                exact ⟨rfl, rfl⟩
              · exact faithful.removes removal earlier }

/-- As long as the indexes fit, the arrays are the ideal map. -/
theorem refines_of_reachable
    (reachable : (histories hash).Reachable
      (fun history operation => Lasting history operation ∧ Indexed history operation) history) :
    history.Refines hash := by
  have faithful := reachable.invariant (faithful_isInvariant hash)
  exact {
    holds := faithful.represents.holds
    distinct := faithful.represents.distinct
    ascending := faithful.represents.ascending
    byKey := faithful.represents.indexForKey_spec
    byHandle := faithful.represents.indexForHandle_spec
    removes := faithful.removes }

/-- Arrays of zeros -/
def blank : Arrays (BitVec 32) ℕ where
  hashCodes := fun _ => 0
  keys := fun _ => 0
  handles := fun _ => 0
  values := fun _ => 0

/-- Two keys are put, and the first is removed. -/
theorem refines_of_two_puts :
    ((((({ map := { blank with } } : History (BitVec 32) ℕ).perform id (.put 7 1 blank)).perform id
      (.put 9 2 blank)).perform id (.remove 0)).Refines id) := by
  refine refines_of_reachable ?_
  refine .step (.step (.step (.initial ⟨blank, rfl⟩) ?_ rfl) ?_ rfl) ?_ rfl
  · exact ⟨(by norm_num : 0 + 1 < 2 ^ 32), Or.inr (by decide)⟩
  · exact ⟨(by norm_num : 1 + 1 < 2 ^ 32), Or.inr (by decide)⟩
  · exact ⟨trivial, by decide, by decide⟩

/-- An entry is removed from an empty map: the call succeeds, and the count is past all bounds. -/
theorem empty_map_loses_an_entry :
    ∃ history : History (BitVec 32) ℕ, (histories id).Reachable Lasting history ∧
      history.map.count = 0xffffffff ∧ ¬history.Refines id := by
  refine ⟨({ map := { blank with } } : History (BitVec 32) ℕ).perform id (.remove (-1)),
    .step (.initial ⟨blank, rfl⟩) ?_ rfl, by decide, fun refines => ?_⟩
  · exact trivial
  have removal := (refines.removes _ (List.mem_singleton.mpr rfl)).2 (by decide)
  exact absurd removal.1 (by decide)

end Cjdns.Map
