import Cjdns.Io.ArrayWriter
import Cjdns.Library.Checked
import Cjdns.Library.Memory
import Cjdns.Util.Endian

/-!
# Version lists

The lists of protocol versions that go with the nodes of a reply, in elements that are as wide as
the highest version needs. The loop that looks for the width does not end for the highest version
of all, and the loops over a list do nothing where its length is negative as an `int`.
-/

namespace Cjdns

/-- `struct VersionList` -/
@[ext]
structure VersionList where
  versions : List (BitVec 32)
  small : versions.length < 2 ^ 32
deriving DecidableEq

namespace VersionList

def length (list : VersionList) : BitVec 32 :=
  BitVec.ofNat 32 list.versions.length

/-- `VersionList_new` -/
def new (count : BitVec 32) : VersionList where
  versions := List.replicate count.toNat 0
  small := by
    rw [List.length_replicate]
    exact count.isLt

def set (i : ℕ) (version : BitVec 32) (list : VersionList) : VersionList where
  versions := list.versions.set i version
  small := by
    rw [List.length_set]
    exact list.small

/-- How often the loops over a list are run -/
def rounds (list : VersionList) : ℕ :=
  list.length.toInt.toNat

/-! ## Parsing -/

/-- The element of a list in so many bytes -/
def decode (numberSize : ℕ) (bytes : List (BitVec 8)) : BitVec 32 :=
  let ver := Memory.load (Memory.write (fun _ => 0) 0 bytes) 0 32
  Endian.bigEndianToHost32 ver >>> ((4 - numberSize) * 8)

/-- The loop of `VersionList_parse` -/
def parseLoop (numberSize : ℕ) : ℕ → ℕ → List (BitVec 8) → VersionList → VersionList
  | 0, _, _, list => list
  | rounds + 1, i, r, list =>
      match ArrayReader.read numberSize r with
      | none => parseLoop numberSize rounds (i + 1) r (list.set i (decode numberSize []))
      | some (bytes, r) =>
          parseLoop numberSize rounds (i + 1) r (list.set i (decode numberSize bytes))

/-- `VersionList_parse` -/
def parse (str : List (BitVec 8)) : Checked (Option VersionList) := do
  let numberSize ← Checked.elementAt str 0
  if str.length < 1 ∨ numberSize = 0 ∨ 4 < numberSize then
    return none
  let length := BitVec.ofNat 32 ((str.length - 1) / numberSize.toNat)
  if (length * numberSize.setWidth 32).toNat ≠ str.length - 1 then
    return none
  let list := new length
  return some (parseLoop numberSize.toNat list.rounds 0 str.tail list)

/-! ## Writing -/

/-- The width of the elements, and the highest number that is not to be written with it -/
structure Width where
  numberSize : BitVec 8 := 1
  max : BitVec 32 := 0xff
deriving DecidableEq

/-- The loop that makes the elements wide enough for a version -/
def widen : ℕ → BitVec 32 → Width → Option Width
  | 0, _, _ => none
  | fuel + 1, version, width =>
      if width.max ≤ version then
        widen fuel version
          { numberSize := width.numberSize + 1, max := width.max <<< 8 ||| 0xff }
      else some width

/-- An element in so many bytes -/
def encode (numberSize : ℕ) (version : BitVec 32) : List (BitVec 8) :=
  let ver := Endian.hostToBigEndian32 (version <<< ((4 - numberSize) * 8))
  Memory.read (Memory.store (fun _ => 0) 0 ver) 0 numberSize

/-- `VersionList_stringify` behind the first of its loops -/
def write (list : VersionList) (numberSize : BitVec 8) : List (BitVec 8) :=
  let out := List.replicate (numberSize.setWidth 32 * list.length + 1).toNat 0
  let elements := (list.versions.take list.rounds).map (encode numberSize.toNat)
  ((ArrayWriter.new out).writeAll ([numberSize] :: elements ++ [[numberSize]])).buffer

/-- `VersionList_stringify`, unless the fuel does not last -/
def stringify (fuel : ℕ) (list : VersionList) : Option (List (BitVec 8)) :=
  ((list.versions.take list.rounds).foldlM (fun width version => widen fuel version width) {}).map
    fun width => list.write width.numberSize

/-! ## The length of a list -/

variable {list : VersionList}

theorem toNat_length (list : VersionList) : list.length.toNat = list.versions.length := by
  rw [length, BitVec.toNat_ofNat, Nat.mod_eq_of_lt list.small]

theorem rounds_of_short (short : list.versions.length < 2 ^ 31) :
    list.rounds = list.versions.length := by
  rw [rounds, BitVec.toInt_eq_toNat_cond, toNat_length, if_pos (by omega), Int.toNat_natCast]

theorem rounds_of_long (long : 2 ^ 31 ≤ list.versions.length) : list.rounds = 0 := by
  have small := list.small
  rw [rounds, BitVec.toInt_eq_toNat_cond, toNat_length, if_neg (by omega)]
  omega

theorem versions_new (count : BitVec 32) :
    (new count).versions = List.replicate count.toNat 0 :=
  rfl

@[simp]
theorem length_new (count : BitVec 32) : (new count).versions.length = count.toNat :=
  List.length_replicate

@[simp]
theorem versions_set (i : ℕ) (version : BitVec 32) (list : VersionList) :
    (list.set i version).versions = list.versions.set i version :=
  rfl

@[simp]
theorem length_parseLoop (numberSize rounds i : ℕ) (r : List (BitVec 8)) (list : VersionList) :
    (parseLoop numberSize rounds i r list).versions.length = list.versions.length := by
  induction rounds generalizing i r list with
  | zero => rfl
  | succ rounds ih =>
      rw [parseLoop]
      split <;> rw [ih, versions_set, List.length_set]

/-! ## What is parsed -/

theorem parse_cons (first : BitVec 8) (rest : List (BitVec 8)) :
    parse (first :: rest) = .ok (if first = 0 ∨ 4 < first then none
      else if first.toNat ∣ rest.length ∧ rest.length < 2 ^ 32 then
        let list := new (BitVec.ofNat 32 (rest.length / first.toNat))
        some (parseLoop first.toNat list.rounds 0 rest list)
      else none) := by
  have exact : (BitVec.ofNat 32 (rest.length / first.toNat) * first.setWidth 32).toNat =
      rest.length ↔ first.toNat ∣ rest.length ∧ rest.length < 2 ^ 32 := by
    have small : first.toNat < 2 ^ 32 := lt_trans first.isLt (by norm_num)
    rw [BitVec.toNat_mul, BitVec.toNat_ofNat, BitVec.toNat_setWidth, Nat.mod_eq_of_lt small,
      Nat.mod_mul_mod]
    have quotient := Nat.div_mul_le_self rest.length first.toNat
    constructor
    · intro same
      have fits : rest.length < 2 ^ 32 := by
        rw [← same]
        exact Nat.mod_lt _ (by norm_num)
      rw [Nat.mod_eq_of_lt (lt_of_le_of_lt quotient fits)] at same
      exact ⟨Dvd.intro_left _ same, fits⟩
    · rintro ⟨divides, fits⟩
      rw [Nat.div_mul_cancel divides, Nat.mod_eq_of_lt fits]
  simp only [parse, Checked.elementAt, List.getElem?_cons_zero, List.length_cons,
    Nat.add_sub_cancel, List.tail_cons, ne_eq, exact, bind, Except.bind, pure, Except.pure]
  by_cases wide : first = 0 ∨ 4 < first
  · rw [if_pos (Or.inr wide), if_pos wide]
  · have positive : ¬(rest.length + 1 < 1 ∨ first = 0 ∨ 4 < first) := by
      rintro (none | other)
      · omega
      · exact wide other
    rw [if_neg positive, if_neg wide]
    by_cases divides : first.toNat ∣ rest.length ∧ rest.length < 2 ^ 32
    · rw [if_neg (not_not.mpr divides), if_pos divides]
    · rw [if_pos divides, if_neg divides]

/-- A string that is parsed to a list -/
theorem parse_eq_some {str : List (BitVec 8)} (parsed : parse str = .ok (some list)) :
    ∃ first rest, str = first :: rest ∧ first.toNat * list.versions.length = rest.length ∧
      first.toNat ≤ 4 ∧ rest.length < 2 ^ 32 ∧
      list = parseLoop first.toNat (new list.length).rounds 0 rest (new list.length) := by
  rcases str with _ | ⟨first, rest⟩
  · cases parsed
  · rw [parse_cons] at parsed
    split_ifs at parsed with wide divides
    · cases parsed
    · rw [Except.ok.injEq, Option.some.injEq] at parsed
      rw [not_or] at wide
      have narrow : first.toNat ≤ 4 := BitVec.le_def.mp (BitVec.not_lt.mp wide.2)
      have fits : rest.length / first.toNat < 2 ^ 32 :=
        lt_of_le_of_lt (Nat.div_le_self _ _) divides.2
      have count : list.versions.length = rest.length / first.toNat := by
        rw [← parsed, length_parseLoop, length_new, BitVec.toNat_ofNat, Nat.mod_eq_of_lt fits]
      refine ⟨first, rest, rfl, ?_, narrow, divides.2, ?_⟩
      · rw [count, Nat.mul_div_cancel' divides.1]
      · rw [length, count]
        exact parsed.symm
    · cases parsed

/-- What a caller relies on when a string is parsed -/
def ParsesWithin (str : List (BitVec 8)) : Prop :=
  ∃ result, parse str = .ok result ∧ ∀ list, result = some list →
    ∃ numberSize, str.head? = some numberSize ∧
      list.versions.length = (str.length - 1) / numberSize.toNat

theorem parsesWithin_iff (str : List (BitVec 8)) : ParsesWithin str ↔ str ≠ [] := by
  rcases str with _ | ⟨first, rest⟩
  · refine iff_of_false ?_ (not_not.mpr rfl)
    rintro ⟨result, parsed, -⟩
    cases parsed
  · refine iff_of_true ⟨_, parse_cons first rest, fun list same => ?_⟩ (List.cons_ne_nil _ _)
    refine ⟨first, rfl, ?_⟩
    split_ifs at same with wide divides
    rw [Option.some.injEq] at same
    have fits : rest.length / first.toNat < 2 ^ 32 :=
      lt_of_le_of_lt (Nat.div_le_self _ _) divides.2
    rw [← same, length_parseLoop, length_new, BitVec.toNat_ofNat, Nat.mod_eq_of_lt fits,
      List.length_cons, Nat.add_sub_cancel]

/-! ## One element -/

@[simp]
theorem length_encode (numberSize : ℕ) (version : BitVec 32) :
    (encode numberSize version).length = numberSize :=
  Memory.length_read _ _ _

theorem length_flatten_encode (numberSize : ℕ) (versions : List (BitVec 32)) :
    (versions.map (encode numberSize)).flatten.length = numberSize * versions.length := by
  have same : versions.map (List.length ∘ encode numberSize) = versions.map fun _ => numberSize :=
    List.map_congr_left fun version _ => length_encode numberSize version
  rw [List.length_flatten, List.map_map, same, List.map_const', List.sum_replicate, smul_eq_mul,
    Nat.mul_comm]

/-- The word whose first bytes are those of another, and whose others are zero -/
theorem getLsbD_load_read {memory : Memory} {count bit : ℕ} (inside : bit < 32) :
    ((Memory.write (fun _ => 0) 0 (memory.read 0 count)).load 0 32).getLsbD bit =
      (decide (bit < 8 * count) && (memory.load 0 32).getLsbD bit) := by
  rw [Memory.getLsbD_load _ _ inside, Memory.getLsbD_load _ _ inside]
  have place : (0 : ℤ) ≤ 0 + (bit : ℤ) / 8 := by omega
  have number : (0 + (bit : ℤ) / 8 - 0).toNat = bit / 8 := by omega
  simp only [Memory.write, if_pos place, number, Memory.read, List.getElem?_map]
  by_cases written : bit / 8 < count
  · have below : bit < 8 * count := by omega
    rw [List.getElem?_range written]
    simp [below]
  · have above : ¬bit < 8 * count := by omega
    rw [List.getElem?_eq_none (by simpa using written)]
    simp [above]

/-- The bytes of the high end come first. -/
theorem swapped_lt_iff {numberSize position : ℕ} (narrow : numberSize ≤ 4)
    (inside : position < 32) :
    position ^^^ 24 < 8 * numberSize ↔ (4 - numberSize) * 8 ≤ position := by
  have all : ∀ numberSize < 5, ∀ position < 32,
      position ^^^ 24 < 8 * numberSize ↔ (4 - numberSize) * 8 ≤ position := by decide
  exact all numberSize (by omega) position inside

/-- An element that is wide enough for a version holds it. -/
theorem decode_encode {numberSize : ℕ} {version : BitVec 32} (narrow : numberSize ≤ 4)
    (fits : version.toNat < 2 ^ (8 * numberSize)) :
    decode numberSize (encode numberSize version) = version := by
  have zeros : ∀ bit, 8 * numberSize ≤ bit → version.getLsbD bit = false := fun bit high => by
    rw [← BitVec.testBit_toNat]
    exact Nat.testBit_lt_two_pow (lt_of_lt_of_le fits (Nat.pow_le_pow_right (by norm_num) high))
  apply BitVec.eq_of_getLsbD_eq
  intro index inside
  rw [decode, encode, BitVec.getLsbD_ushiftRight]
  by_cases low : (4 - numberSize) * 8 + index < 32
  · have other : ((4 - numberSize) * 8 + index) ^^^ 24 < 32 :=
      Nat.xor_lt_two_pow (n := 5) low (by norm_num)
    have kept := (swapped_lt_iff narrow low).mpr (Nat.le_add_right _ _)
    rw [Endian.bigEndianToHost32, Endian.getLsbD_byteSwap32 _ low, getLsbD_load_read other,
      Memory.load_store _ _ _ (by norm_num), Endian.hostToBigEndian32,
      Endian.getLsbD_byteSwap32 _ other, Nat.xor_assoc, Nat.xor_self, Nat.xor_zero,
      BitVec.getLsbD_shiftLeft]
    simp [kept, low]
  · rw [BitVec.getLsbD_of_ge _ _ (by omega), zeros index (by omega)]

theorem parseLoop_encode {numberSize : ℕ} (positive : 0 < numberSize) (narrow : numberSize ≤ 4)
    (versions : List (BitVec 32))
    (fits : ∀ version ∈ versions, version.toNat < 2 ^ (8 * numberSize))
    {before behind : List (BitVec 32)} (same : list.versions = before ++ behind)
    (count : behind.length = versions.length) :
    (parseLoop numberSize versions.length before.length
      (versions.map (encode numberSize)).flatten list).versions = before ++ versions := by
  induction versions generalizing list before behind with
  | nil => rw [List.length_nil, parseLoop, same, List.length_eq_zero_iff.mp count]
  | cons first rest ih =>
      rcases behind with _ | ⟨old, behind⟩
      · cases count
      · have read : ArrayReader.read numberSize ((first :: rest).map (encode numberSize)).flatten =
            some (encode numberSize first, (rest.map (encode numberSize)).flatten) := by
          rw [List.map_cons, List.flatten_cons, ArrayReader.read,
            if_neg (by rw [List.length_append, length_encode]; omega), if_neg (by omega),
            List.take_left' (length_encode _ _), List.drop_left' (length_encode _ _)]
        have stored : (list.set before.length first).versions =
            (before ++ [first]) ++ behind := by
          rw [versions_set, same, List.set_append_right _ _ le_rfl, Nat.sub_self,
            List.set_cons_zero, List.append_assoc, List.singleton_append]
        rw [List.length_cons, parseLoop, read]
        dsimp only
        rw [decode_encode narrow (fits first List.mem_cons_self)]
        have others := ih (fun version member => fits version (List.mem_cons_of_mem _ member))
          stored (Nat.succ_injective count)
        rw [List.length_append, List.length_singleton] at others
        rw [others, List.append_assoc, List.singleton_append]

/-! ## The width of the elements -/

/-- The least width for a version -/
def elementSize (version : BitVec 32) : ℕ :=
  if version < 0xff then 1 else if version < 0xffff then 2 else if version < 0xffffff then 3 else 4

/-- The least width for some versions, from a width on -/
def elementSizes (size : ℕ) (versions : List (BitVec 32)) : ℕ :=
  versions.foldl (fun size version => max size (elementSize version)) size

def Width.ofSize (size : ℕ) : Width where
  numberSize := BitVec.ofNat 8 size
  max := BitVec.ofNat 32 (2 ^ (8 * size) - 1)

theorem elementSize_le (version : BitVec 32) : elementSize version ≤ 4 := by
  rw [elementSize]
  split_ifs <;> norm_num

theorem toNat_lt_of_elementSize (version : BitVec 32) :
    version.toNat < 2 ^ (8 * elementSize version) := by
  have bound := version.isLt
  rw [elementSize]
  split_ifs with one two three
  · have small : version.toNat < 0xff := one
    omega
  · have small : version.toNat < 0xffff := two
    omega
  · have small : version.toNat < 0xffffff := three
    omega
  · exact bound

theorem max_ofSize_le_iff {version : BitVec 32} (other : version ≠ BitVec.allOnes 32) {size : ℕ}
    (positive : 1 ≤ size) (narrow : size ≤ 4) :
    (Width.ofSize size).max ≤ version ↔ size < elementSize version := by
  have below : version.toNat < 2 ^ 32 - 1 := by
    have bound := version.isLt
    have apart : version.toNat ≠ 2 ^ 32 - 1 := fun same =>
      other (BitVec.eq_of_toNat_eq (by rw [same, BitVec.toNat_allOnes]))
    omega
  simp only [elementSize, Width.ofSize, BitVec.le_def, BitVec.lt_def, BitVec.ofNat_eq_ofNat,
    BitVec.toNat_ofNat]
  interval_cases size <;> split_ifs <;> omega

theorem widen_ofSize {version : BitVec 32} (other : version ≠ BitVec.allOnes 32) (fuel : ℕ)
    {size : ℕ} (positive : 1 ≤ size) (narrow : size ≤ 4) :
    widen fuel version (Width.ofSize size) =
      if elementSize version - size < fuel then
        some (Width.ofSize (max size (elementSize version)))
      else none := by
  induction fuel generalizing size with
  | zero => rfl
  | succ fuel ih =>
      have bound := elementSize_le version
      rw [widen]
      by_cases wider : size < elementSize version
      · have next : ({ numberSize := (Width.ofSize size).numberSize + 1
                       max := (Width.ofSize size).max <<< 8 ||| 0xff } : Width) =
            Width.ofSize (size + 1) := by
          have small : size < 4 := by omega
          interval_cases size <;> rfl
        rw [if_pos ((max_ofSize_le_iff other positive narrow).mpr wider), next,
          ih (by omega) (by omega), max_eq_right wider.le, max_eq_right (by omega)]
        exact if_congr (by omega) rfl rfl
      · rw [if_neg ((max_ofSize_le_iff other positive narrow).not.mpr wider), if_pos (by omega),
          max_eq_left (not_lt.mp wider)]

/-- The loop does not end for the highest version. -/
theorem widen_highest (fuel : ℕ) (width : Width) :
    widen fuel (BitVec.allOnes 32) width = none := by
  induction fuel generalizing width with
  | zero => rfl
  | succ fuel ih =>
      have above : width.max ≤ BitVec.allOnes 32 := by
        have bound := width.max.isLt
        rw [BitVec.le_def, BitVec.toNat_allOnes]
        omega
      rw [widen, if_pos above, ih]

/-- Which width the loop over some versions comes to -/
theorem foldlM_widen_eq_some {versions : List (BitVec 32)} {fuel size : ℕ} {width : Width}
    (positive : 1 ≤ size) (narrow : size ≤ 4)
    (widened : versions.foldlM (fun width version => widen fuel version width)
      (Width.ofSize size) = some width) :
    (∀ version ∈ versions, version ≠ BitVec.allOnes 32) ∧
      width = Width.ofSize (elementSizes size versions) := by
  induction versions generalizing size with
  | nil =>
      cases widened
      exact ⟨by simp, rfl⟩
  | cons first rest ih =>
      rw [List.foldlM_cons, Option.bind_eq_bind, Option.bind_eq_some_iff] at widened
      rcases widened with ⟨next, one, others⟩
      have finite : first ≠ BitVec.allOnes 32 := by
        rintro rfl
        rw [widen_highest] at one
        cases one
      rw [widen_ofSize finite fuel positive narrow] at one
      split_ifs at one
      cases one
      have bound := elementSize_le first
      rcases ih (by omega) (by omega) others with ⟨finites, whole⟩
      exact ⟨List.forall_mem_cons.mpr ⟨finite, finites⟩, whole⟩

theorem foldlM_widen {versions : List (BitVec 32)} {size : ℕ} (positive : 1 ≤ size)
    (narrow : size ≤ 4) (finite : ∀ version ∈ versions, version ≠ BitVec.allOnes 32) :
    versions.foldlM (fun width version => widen 4 version width) (Width.ofSize size) =
      some (Width.ofSize (elementSizes size versions)) := by
  induction versions generalizing size with
  | nil => rfl
  | cons first rest ih =>
      have bound := elementSize_le first
      rw [List.forall_mem_cons] at finite
      rw [List.foldlM_cons, widen_ofSize finite.1 4 positive narrow, if_pos (by omega),
        Option.bind_eq_bind, Option.bind_some, ih (by omega) (by omega) finite.2]
      rfl

theorem elementSizes_le {versions : List (BitVec 32)} {size : ℕ} (narrow : size ≤ 4) :
    size ≤ elementSizes size versions ∧ elementSizes size versions ≤ 4 := by
  induction versions generalizing size with
  | nil => exact ⟨le_rfl, narrow⟩
  | cons first rest ih =>
      have bound := elementSize_le first
      rcases @ih (max size (elementSize first)) (by omega) with ⟨lower, upper⟩
      exact ⟨le_trans (le_max_left _ _) lower, upper⟩

theorem elementSize_le_elementSizes {versions : List (BitVec 32)} {size : ℕ} (narrow : size ≤ 4)
    {version : BitVec 32} (member : version ∈ versions) :
    elementSize version ≤ elementSizes size versions := by
  induction versions generalizing size with
  | nil => cases member
  | cons first rest ih =>
      have bound := elementSize_le first
      rcases List.mem_cons.mp member with rfl | later
      · exact le_trans (le_max_right _ _)
          (@elementSizes_le rest (max size (elementSize version)) (by omega)).1
      · exact ih (max_le narrow bound) later

/-! ## What is written -/

theorem toNat_ofNat_size {size : ℕ} (narrow : size ≤ 4) : (BitVec.ofNat 8 size).toNat = size := by
  rw [BitVec.toNat_ofNat, Nat.mod_eq_of_lt (by omega)]

theorem toNat_outLength {size : ℕ} (narrow : size ≤ 4) (list : VersionList) :
    ((BitVec.ofNat 8 size).setWidth 32 * list.length + 1 : BitVec 32).toNat =
      (size * list.versions.length + 1) % 2 ^ 32 := by
  rw [BitVec.toNat_add, BitVec.toNat_mul, BitVec.toNat_setWidth, toNat_ofNat_size narrow,
    toNat_length, Nat.mod_eq_of_lt (by omega : size < 2 ^ 32), BitVec.ofNat_eq_ofNat,
    BitVec.toNat_ofNat, Nat.mod_add_mod]

theorem length_write {size : ℕ} (narrow : size ≤ 4) (list : VersionList) :
    (list.write (BitVec.ofNat 8 size)).length = (size * list.versions.length + 1) % 2 ^ 32 := by
  simp only [write, ArrayWriter.length_buffer_writeAll]
  rw [← toNat_outLength narrow]
  exact List.length_replicate

/-- The width is written first, as far as there is room at all. -/
theorem head_write {size : ℕ} {first : BitVec 8} {rest : List (BitVec 8)}
    (written : list.write (BitVec.ofNat 8 size) = first :: rest) : first = BitVec.ofNat 8 size := by
  simp only [write, List.cons_append, ArrayWriter.writeAll_cons] at written
  generalize ((BitVec.ofNat 8 size).setWidth 32 * list.length + 1 : BitVec 32).toNat = out
    at written
  have room : 1 ≤ out := by
    have length := congrArg List.length written
    rw [ArrayWriter.length_buffer_writeAll, ArrayWriter.length_buffer_write] at length
    simp only [ArrayWriter.new, List.length_replicate, List.length_cons] at length
    omega
  have start := (ArrayWriter.contents_prefix_writeAll
    ((list.versions.take list.rounds).map (encode (BitVec.ofNat 8 size).toNat) ++
      [[BitVec.ofNat 8 size]])
    ((ArrayWriter.new (List.replicate out 0)).write [BitVec.ofNat 8 size]).2).trans
      (List.take_prefix _ _)
  rw [written, (ArrayWriter.write_of_fits rfl (by simpa [ArrayWriter.new] using room)).2.2.2,
    ArrayWriter.contents_new, List.nil_append, List.cons_prefix_cons] at start
  exact start.1.symm

/-- Where there is room for all versions, they are all written. -/
theorem write_of_fits {size : ℕ} (narrow : size ≤ 4) (all : list.rounds = list.versions.length)
    (fits : size * list.versions.length + 1 < 2 ^ 32) :
    list.write (BitVec.ofNat 8 size) =
      BitVec.ofNat 8 size :: (list.versions.map (encode size)).flatten := by
  have total : ([BitVec.ofNat 8 size] :: list.versions.map (encode size)).flatten.length =
      size * list.versions.length + 1 := by
    rw [List.flatten_cons, List.length_append, List.length_singleton, length_flatten_encode,
      Nat.add_comm]
  simp only [write]
  rw [toNat_outLength narrow, Nat.mod_eq_of_lt fits, all, List.take_length,
    toNat_ofNat_size narrow, ArrayWriter.writeAll_append]
  generalize opened : ArrayWriter.new (List.replicate (size * list.versions.length + 1) 0) = out
  have room : out.buffer.length = size * list.versions.length + 1 := by
    rw [← opened]
    exact List.length_replicate
  have empty : out.contents = [] ∧ out.bytesWritten = 0 ∧ out.returnCode = 0 := by
    rw [← opened]
    exact ⟨ArrayWriter.contents_new _, rfl, rfl⟩
  have fitting : out.bytesWritten +
      ([BitVec.ofNat 8 size] :: list.versions.map (encode size)).flatten.length ≤
        out.buffer.length := by
    rw [empty.2.1, total, room, Nat.zero_add]
  have contents := ArrayWriter.contents_writeAll_of_fits empty.2.2 _ fitting
  have fine := (ArrayWriter.writeAll_fine_iff empty.2.2 _).mpr fitting
  rw [empty.1, List.nil_append] at contents
  have full := congrArg List.length contents
  rw [ArrayWriter.length_contents, total] at full
  have kept : (out.writeAll
      ([BitVec.ofNat 8 size] :: list.versions.map (encode size))).buffer.length =
        size * list.versions.length + 1 := by
    rw [ArrayWriter.length_buffer_writeAll, room]
  -- the width is written once more, and that fails
  rw [ArrayWriter.writeAll_cons, ArrayWriter.writeAll_nil,
    ArrayWriter.write_of_full fine (by rw [kept, full, List.length_singleton]; omega)]
  rw [ArrayWriter.contents_of_full (by rw [kept, full])] at contents
  exact contents

/-! ## The round trip -/

/-- The list is written, and what was written is parsed to the list. -/
def RoundTrips (list : VersionList) : Prop :=
  ∃ fuel str, stringify fuel list = some str ∧ parse str = .ok (some list)

/--
The lists that survive: the short ones without the highest version whose elements fit a 32-bit
count of bytes, and the long ones without any version but zero.
-/
def Survives (list : VersionList) : Prop :=
  list.versions.length < 2 ^ 31 ∧ (∀ version ∈ list.versions, version ≠ BitVec.allOnes 32) ∧
      elementSizes 1 list.versions * list.versions.length + 1 < 2 ^ 32 ∨
    2 ^ 31 ≤ list.versions.length ∧ list.versions.length < 2 ^ 32 - 1 ∧
      ∀ version ∈ list.versions, version = 0

/-- What `stringify` comes to -/
theorem stringify_iff {str : List (BitVec 8)} :
    (∃ fuel, stringify fuel list = some str) ↔
      (∀ version ∈ list.versions.take list.rounds, version ≠ BitVec.allOnes 32) ∧
        str = list.write
          (BitVec.ofNat 8 (elementSizes 1 (list.versions.take list.rounds))) := by
  simp only [stringify, Option.map_eq_some_iff]
  constructor
  · rintro ⟨fuel, width, widened, rfl⟩
    rcases foldlM_widen_eq_some le_rfl (by norm_num) widened with ⟨finite, rfl⟩
    exact ⟨finite, rfl⟩
  · rintro ⟨finite, rfl⟩
    exact ⟨4, _, foldlM_widen le_rfl (by norm_num) finite, rfl⟩

theorem ofNat_size_is_width {size : ℕ} (positive : 1 ≤ size) (narrow : size ≤ 4) :
    ¬(BitVec.ofNat 8 size = 0 ∨ 4 < BitVec.ofNat 8 size) := by
  interval_cases size <;> decide

/-- The element by element reading of what was written -/
theorem parse_write_of_fits {size : ℕ} (positive : 1 ≤ size) (narrow : size ≤ 4)
    (short : list.versions.length < 2 ^ 31)
    (wide : ∀ version ∈ list.versions, version.toNat < 2 ^ (8 * size))
    (fits : size * list.versions.length + 1 < 2 ^ 32) :
    parse (list.write (BitVec.ofNat 8 size)) = .ok (some list) := by
  have count : (new (BitVec.ofNat 32 list.versions.length)).versions.length =
      list.versions.length := by
    rw [length_new, BitVec.toNat_ofNat, Nat.mod_eq_of_lt list.small]
  rw [write_of_fits narrow (rounds_of_short short) fits, parse_cons,
    if_neg (ofNat_size_is_width positive narrow), toNat_ofNat_size narrow, length_flatten_encode,
    if_pos ⟨Dvd.intro _ rfl, by omega⟩, Nat.mul_div_cancel_left _ positive]
  dsimp only
  rw [rounds_of_short (by rw [count]; exact short), count]
  congr 2
  ext1
  exact @parseLoop_encode _ size positive narrow list.versions wide [] _ rfl count

/-- Where the loops are not run, the list comes back with zeros. -/
theorem parse_write_of_long (long : 2 ^ 31 ≤ list.versions.length)
    (fits : list.versions.length < 2 ^ 32 - 1) :
    parse (list.write (BitVec.ofNat 8 1)) = .ok (some (new list.length)) := by
  have total := @length_write 1 (by norm_num) list
  rw [Nat.one_mul, Nat.mod_eq_of_lt (by omega)] at total
  rcases written : list.write (BitVec.ofNat 8 1) with _ | ⟨first, rest⟩
  · rw [written] at total
    cases total
  · rw [head_write written]
    rw [written, List.length_cons, Nat.succ_inj] at total
    rw [parse_cons, if_neg (by decide), toNat_ofNat_size (by norm_num), total,
      if_pos ⟨one_dvd _, list.small⟩, Nat.div_one]
    dsimp only
    have many : 2 ^ 31 ≤ (new (BitVec.ofNat 32 list.versions.length)).versions.length := by
      rw [length_new, BitVec.toNat_ofNat, Nat.mod_eq_of_lt list.small]
      exact long
    rw [rounds_of_long many]
    rfl

/-- A list that is parsed from what was written for a list as long is written whole. -/
theorem fits_of_parse_write {size : ℕ} (narrow : size ≤ 4)
    (parsed : parse (list.write (BitVec.ofNat 8 size)) = .ok (some list)) :
    size * list.versions.length + 1 < 2 ^ 32 := by
  rcases parse_eq_some parsed with ⟨first, rest, written, count, -, small, -⟩
  have total := length_write narrow list
  rw [written, List.length_cons] at total
  rw [head_write written, toNat_ofNat_size narrow] at count
  rw [← count] at total small
  by_contra tooMany
  have wraps := Nat.mod_lt (size * list.versions.length + 1) (show 0 < 2 ^ 32 by norm_num)
  omega

theorem roundTrips_iff_fits (list : VersionList) : RoundTrips list ↔ Survives list := by
  have small := list.small
  have bounds := @elementSizes_le list.versions 1 (by norm_num)
  have come : RoundTrips list ↔
      (∀ version ∈ list.versions.take list.rounds, version ≠ BitVec.allOnes 32) ∧
        parse (list.write (BitVec.ofNat 8 (elementSizes 1 (list.versions.take list.rounds)))) =
          .ok (some list) := by
    simp only [RoundTrips]
    rw [exists_comm]
    simp only [exists_and_right, stringify_iff]
    constructor
    · rintro ⟨str, ⟨finite, rfl⟩, parsed⟩
      exact ⟨finite, parsed⟩
    · rintro ⟨finite, parsed⟩
      exact ⟨_, ⟨finite, rfl⟩, parsed⟩
  rw [come, Survives]
  by_cases short : list.versions.length < 2 ^ 31
  · rw [rounds_of_short short, List.take_length]
    constructor
    · rintro ⟨finite, parsed⟩
      exact Or.inl ⟨short, finite, fits_of_parse_write bounds.2 parsed⟩
    · rintro (⟨-, finite, fits⟩ | ⟨long, -⟩)
      · refine ⟨finite, parse_write_of_fits bounds.1 bounds.2 short (fun version member => ?_) fits⟩
        exact lt_of_lt_of_le (toNat_lt_of_elementSize version) (Nat.pow_le_pow_right (by norm_num)
          (Nat.mul_le_mul_left 8 (elementSize_le_elementSizes (by norm_num) member)))
      · omega
  · have long := not_lt.mp short
    rw [rounds_of_long long, List.take_zero]
    constructor
    · rintro ⟨-, parsed⟩
      have fits := @fits_of_parse_write list 1 (by norm_num) parsed
      have room : list.versions.length < 2 ^ 32 - 1 := by omega
      rw [show elementSizes 1 [] = 1 from rfl, parse_write_of_long long room, Except.ok.injEq,
        Option.some.injEq] at parsed
      refine Or.inr ⟨long, room, fun version member => ?_⟩
      rw [← parsed] at member
      exact List.eq_of_mem_replicate member
    · rintro (⟨short, -⟩ | ⟨-, room, zeros⟩)
      · omega
      · refine ⟨by simp, ?_⟩
        rw [show elementSizes 1 [] = 1 from rfl, parse_write_of_long long room]
        congr 2
        ext1
        rw [versions_new, toNat_length]
        exact (List.eq_replicate_of_mem zeros).symm

/--
The lists that come back are those that survive, and parsing keeps to the bytes of a string
unless it has none.
-/
theorem codec_iff (list : VersionList) (str : List (BitVec 8)) :
    (RoundTrips list ↔ Survives list) ∧ (ParsesWithin str ↔ str ≠ []) :=
  ⟨roundTrips_iff_fits list, parsesWithin_iff str⟩

/-- No fuel is enough for the highest version, and the width of an empty string is read anyway. -/
theorem highest_version_hangs :
    (∀ fuel, stringify fuel ⟨[0xffffffff], by decide⟩ = none) ∧
      parse [] = .error .outOfBounds ∧ ¬ParsesWithin [] := by
  refine ⟨fun fuel => ?_, rfl, fun within => (parsesWithin_iff []).mp within rfl⟩
  have highest : (0xffffffff : BitVec 32) = BitVec.allOnes 32 := rfl
  rw [stringify, rounds_of_short (by decide)]
  simp only [List.length_singleton, List.take_succ_cons, List.take_zero, List.foldlM_cons, highest,
    widen_highest]
  rfl

end VersionList

end Cjdns
