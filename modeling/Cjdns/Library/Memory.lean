import Mathlib.Tactic

/-!
# Byte-addressed memory

A memory maps integer addresses to bytes. Words are loaded and stored in little
endian order, byte strings are read and written in address order. The lemmas
say what a store shows at its own address and that it leaves every disjoint
range alone.
-/

/-- A memory of eight-bit bytes. -/
abbrev Memory := ℤ → BitVec 8

namespace Memory

variable {width : ℕ}

/-- The word of `width` bits that starts at an address, lowest byte first. -/
def load (memory : Memory) (address : ℤ) (width : ℕ) : BitVec width :=
  BitVec.ofNat width
    (Nat.ofBits fun bit : Fin width => (memory (address + (bit : ℕ) / 8)).getLsbD (bit % 8))

/-- Store a word of whole bytes, lowest byte first. -/
def store (memory : Memory) (address : ℤ) (word : BitVec width) : Memory := fun place =>
  if address ≤ place ∧ place < address + width / 8 then
    word.extractLsb' (8 * (place - address).toNat) 8
  else memory place

/-- The `count` bytes from an address on. -/
def read (memory : Memory) (address : ℤ) (count : ℕ) : List (BitVec 8) :=
  (List.range count).map fun index : ℕ => memory (address + index)

/-- Write a string of bytes. -/
def write (memory : Memory) (address : ℤ) (bytes : List (BitVec 8)) : Memory := fun place =>
  if address ≤ place then (bytes[(place - address).toNat]?).getD (memory place) else memory place

theorem getLsbD_load (memory : Memory) (address : ℤ) {bit : ℕ} (inside : bit < width) :
    (memory.load address width).getLsbD bit =
      (memory (address + (bit : ℕ) / 8)).getLsbD (bit % 8) := by
  rw [load, BitVec.getLsbD_ofNat, Nat.testBit_ofBits_lt _ _ inside]
  simp [inside]

@[simp]
theorem length_read (memory : Memory) (address : ℤ) (count : ℕ) :
    (memory.read address count).length = count := by
  simp [read]

theorem read_congr {left right : Memory} {address : ℤ} {count : ℕ}
    (agree : ∀ place, address ≤ place → place < address + count → left place = right place) :
    left.read address count = right.read address count := by
  apply List.map_congr_left
  intro index inside
  rw [List.mem_range] at inside
  exact agree _ (by omega) (by omega)

/-- Reading goes on where it stopped. -/
theorem read_add (memory : Memory) (address : ℤ) (first second : ℕ) :
    memory.read address (first + second) =
      memory.read address first ++ memory.read (address + first) second := by
  simp only [read, List.range_add, List.map_append, List.map_map]
  congr 1
  apply List.map_congr_left
  intro index _
  simp [Function.comp, add_assoc]

/-- Memories that agree on a range agree on every part of it. -/
theorem read_eq_within {left right : Memory} {leftAddress rightAddress : ℤ}
    {count start length : ℕ}
    (same : left.read leftAddress count = right.read rightAddress count)
    (inside : start + length ≤ count) :
    left.read (leftAddress + start) length = right.read (rightAddress + start) length := by
  obtain ⟨rest, rfl⟩ := Nat.exists_eq_add_of_le inside
  simp only [read_add] at same
  have front := (List.append_inj same (by simp)).1
  exact (List.append_inj front (by simp)).2

theorem take_read (memory : Memory) (address : ℤ) {kept count : ℕ} (le : kept ≤ count) :
    (memory.read address count).take kept = memory.read address kept := by
  obtain ⟨rest, rfl⟩ := Nat.exists_eq_add_of_le le
  rw [read_add, List.take_left' (length_read ..)]

theorem drop_read (memory : Memory) (address : ℤ) {dropped count : ℕ} (le : dropped ≤ count) :
    (memory.read address count).drop dropped =
      memory.read (address + dropped) (count - dropped) := by
  obtain ⟨rest, rfl⟩ := Nat.exists_eq_add_of_le le
  rw [read_add, List.drop_left' (length_read ..), Nat.add_sub_cancel_left]

theorem take_read' (memory : Memory) (address : ℤ) (kept count : ℕ) :
    (memory.read address count).take kept = memory.read address (min count kept) := by
  rcases le_total kept count with le | le
  · rw [take_read memory address le, min_eq_right le]
  · rw [List.take_of_length_le (by simpa using le), min_eq_left le]

theorem load_congr {left right : Memory} {address : ℤ}
    (agree : ∀ place, address ≤ place → place < address + (width + 7) / 8 →
      left place = right place) :
    left.load address width = right.load address width := by
  apply BitVec.eq_of_getLsbD_eq
  intro bit inside
  rw [getLsbD_load _ _ inside, getLsbD_load _ _ inside,
    agree (address + (bit : ℕ) / 8) (by omega) (by omega)]

/-- A word is determined by the bytes it spans. -/
theorem load_eq_of_read_eq {left right : Memory} {leftAddress rightAddress : ℤ} (count : ℕ)
    (same : left.read leftAddress count = right.read rightAddress count)
    (spans : width ≤ 8 * count) :
    left.load leftAddress width = right.load rightAddress width := by
  apply BitVec.eq_of_getLsbD_eq
  intro bit inside
  rw [getLsbD_load _ _ inside, getLsbD_load _ _ inside]
  have byte := congrArg (fun bytes => bytes[(bit : ℕ) / 8]?) same
  simp only [read, List.getElem?_map, List.getElem?_range (by omega : (bit : ℕ) / 8 < count),
    Option.map_some, Option.some.injEq] at byte
  simpa using congrArg (fun value : BitVec 8 => value.getLsbD (bit % 8)) byte

@[simp]
theorem load_zero (address : ℤ) : load (fun _ => 0) address width = 0 := by
  apply BitVec.eq_of_getLsbD_eq
  intro bit inside
  rw [getLsbD_load _ _ inside]
  simp

/-- The bytes of a word that is zero are zero. -/
theorem apply_of_load_eq_zero {memory : Memory} {address : ℤ} {count index : ℕ}
    (zero : memory.load address (8 * count) = 0) (inside : index < count) :
    memory (address + index) = 0 := by
  apply BitVec.eq_of_getLsbD_eq
  intro bit small
  have place : address + ((8 * index + bit : ℕ) : ℤ) / 8 = address + index := by omega
  have loaded := @getLsbD_load (8 * count) memory address (8 * index + bit) (by omega)
  rw [zero, place, Nat.mul_add_mod_self_left, Nat.mod_eq_of_lt small] at loaded
  rw [← loaded]
  simp

theorem store_outside (memory : Memory) {address place : ℤ} {word : BitVec width}
    (outside : place < address ∨ address + width / 8 ≤ place) :
    memory.store address word place = memory place := by
  rw [store, if_neg (by omega)]

/-- A word of whole bytes is loaded as it was stored. -/
theorem load_store (memory : Memory) (address : ℤ) (word : BitVec width) (whole : 8 ∣ width) :
    (memory.store address word).load address width = word := by
  apply BitVec.eq_of_getLsbD_eq
  intro bit inside
  obtain ⟨count, rfl⟩ := whole
  have within : address ≤ address + (bit : ℤ) / 8 ∧
      address + (bit : ℤ) / 8 < address + ((8 * count : ℕ) : ℤ) / 8 := by omega
  have offset : (address + (bit : ℤ) / 8 - address).toNat = bit / 8 := by omega
  have position : 8 * (bit / 8) + bit % 8 = bit := by omega
  rw [getLsbD_load _ _ inside]
  simp only [store, if_pos within, offset, BitVec.getLsbD_extractLsb', position,
    Nat.mod_lt bit (by omega : 8 > 0), decide_true, Bool.true_and]

theorem load_store_disjoint (memory : Memory) {address other : ℤ} {otherWidth : ℕ}
    {word : BitVec otherWidth}
    (disjoint : address + (width + 7) / 8 ≤ other ∨ other + otherWidth / 8 ≤ address) :
    (memory.store other word).load address width = memory.load address width := by
  apply load_congr
  intro place lower upper
  exact store_outside memory (by omega)

/-- Memories that agree on a range agree on it after the same store. -/
theorem read_store_congr {left right : Memory} {address place : ℤ} {count : ℕ}
    (word : BitVec width) (same : left.read address count = right.read address count) :
    (left.store place word).read address count = (right.store place word).read address count := by
  apply read_congr
  intro inside lower upper
  have byte := congrArg (fun bytes => bytes[(inside - address).toNat]?) same
  simp only [read, List.getElem?_map,
    List.getElem?_range (by omega : (inside - address).toNat < count), Option.map_some,
    Option.some.injEq, (by omega : address + ((inside - address).toNat : ℤ) = inside)] at byte
  simp only [store, byte]

/-- A second store to the same place replaces the first. -/
theorem store_store (memory : Memory) (address : ℤ) (first second : BitVec width) :
    (memory.store address first).store address second = memory.store address second := by
  funext place
  simp only [store]
  split_ifs <;> rfl

theorem write_outside (memory : Memory) {address place : ℤ} {bytes : List (BitVec 8)}
    (outside : place < address ∨ address + bytes.length ≤ place) :
    memory.write address bytes place = memory place := by
  simp only [write]
  split_ifs with above
  · rw [List.getElem?_eq_none (by omega), Option.getD_none]
  · rfl

/-- A string of bytes is read as it was written. -/
theorem read_write (memory : Memory) (address : ℤ) (bytes : List (BitVec 8)) :
    (memory.write address bytes).read address bytes.length = bytes := by
  apply List.ext_getElem (by simp)
  intro index _ inside
  simp [read, write, inside]

/-- Storing back the word that was there changes nothing. -/
theorem store_load (memory : Memory) (address : ℤ) (whole : 8 ∣ width) :
    memory.store address (memory.load address width) = memory := by
  funext place
  simp only [store]
  split_ifs with within
  · obtain ⟨count, rfl⟩ := whole
    apply BitVec.eq_of_getLsbD_eq
    intro bit inside
    have position : 8 * (place - address).toNat + bit < 8 * count := by omega
    have byte : address + ((8 * (place - address).toNat + bit : ℕ) : ℤ) / 8 = place := by omega
    have low : (8 * (place - address).toNat + bit) % 8 = bit := by omega
    rw [BitVec.getLsbD_extractLsb', getLsbD_load _ _ position, byte, low]
    simp [inside]
  · rfl

end Memory
