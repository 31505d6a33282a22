import Cjdns.Benc.StandardBencSerializer

/-!
# The laws of dictionaries

`putObject` stops at the first key that is not smaller than the one to put, `lookupObject` and
`Dict_remove` look at every entry. A dictionary from `Dict_new` is in ascending order, one that
was parsed is in the reverse order of the input. Where a key stands behind a greater one, putting
it makes a second entry. `String_compare` returns the difference of two lengths as an `int`, so
with keys of 2^31 bytes and more it also takes one key for another.
-/

namespace Cjdns

/-! ## The order of the keys -/

namespace BString

theorem compare_neg_iff {first second : BString} :
    compare first second < 0 ↔ first.map BitVec.toInt < second.map BitVec.toInt := by
  induction first generalizing second with
  | nil =>
      cases second with
      | nil => simp [compare]
      | cons two second =>
          simp only [compare, List.length_cons, List.map_nil, List.map_cons, List.nil_lt_cons,
            iff_true]
          omega
  | cons one first ih =>
      cases second with
      | nil =>
          simp only [compare, List.length_cons, List.map_nil, List.not_lt_nil, iff_false]
          omega
      | cons two second =>
          rw [compare, List.map_cons, List.map_cons, List.cons_lt_cons_iff]
          split_ifs with same
          · simp [ih, same]
          · have apart : one.toInt ≠ two.toInt := fun equal => same (BitVec.toInt_inj.mp equal)
            simp [apart]

theorem compare_pos_iff {first second : BString} :
    0 < compare first second ↔ compare second first < 0 := by
  have zero := @compare_eq_zero_iff first second
  have below := @compare_neg_iff first second
  have above := @compare_neg_iff second first
  constructor
  · intro positive
    rw [above]
    apply lt_of_not_ge
    intro less
    rcases less.lt_or_eq with less | same
    · have negative := below.mpr less
      omega
    · have injective : Function.Injective fun byte : BitVec 8 => byte.toInt :=
        fun one two equal => BitVec.toInt_inj.mp equal
      have equal := zero.mpr (List.map_injective_iff.mpr injective same)
      omega
  · intro negative
    rw [above] at negative
    by_contra notPositive
    rcases lt_or_eq_of_le (not_lt.mp notPositive) with less | same
    · exact lt_asymm (below.mp less) negative
    · rw [zero.mp same] at negative
      exact lt_irrefl _ negative

theorem compare_trans {first second third : BString} (less : compare first second < 0)
    (later : compare second third < 0) : compare first third < 0 := by
  rw [compare_neg_iff] at less later ⊢
  exact lt_trans less later

/-- `String_compare`, whose result is an `int`: of the difference of two lengths the low 32 bits
are left. -/
def compareInt (first second : BString) : ℤ :=
  (compare first second).bmod (2 ^ 32)

@[simp]
theorem compareInt_self (key : BString) : compareInt key key = 0 := by
  rw [compareInt, compare_eq_zero_iff.mpr rfl]
  rfl

theorem compare_bounds (first second : BString) :
    -(max 255 second.length : ℤ) ≤ compare first second ∧
      compare first second ≤ max 255 first.length := by
  induction first generalizing second with
  | nil =>
      cases second with
      | nil => simp [compare]
      | cons two second =>
          simp only [compare, List.length_cons, List.length_nil]
          omega
  | cons one first ih =>
      cases second with
      | nil =>
          simp only [compare, List.length_cons, List.length_nil]
          omega
      | cons two second =>
          have inner := ih second
          have low := BitVec.le_two_mul_toInt (x := one)
          simp only [compare, List.length_cons]
          split_ifs
          · omega
          · have first_byte := one.toInt_lt
            have second_byte := two.toInt_lt
            have first_least := one.le_toInt
            have second_least := two.le_toInt
            omega

/-- Keys that fit into memory of 2 gigabytes are compared as they should be. -/
theorem compareInt_eq_compare {first second : BString} (one : first.length < 2 ^ 31)
    (two : second.length < 2 ^ 31) : compareInt first second = compare first second := by
  have bounds := compare_bounds first second
  rw [compareInt]
  apply Int.bmod_eq_of_le
  · omega
  · omega

end BString

namespace Dict

/-! ## What the operations promise -/

/-- `putObject` -/
def put (key : BString) (value : Object) : Dict → Dict
  | nil => cons key value nil
  | cons other val next =>
      let cmp := BString.compareInt key other
      if cmp < 0 then cons key value (cons other val next)
      else if cmp = 0 then cons other value next
      else cons other val (put key value next)

def keys : Dict → List BString
  | nil => []
  | cons key _ next => key :: keys next

/-- What `putObject` returns -/
def displaced (key : BString) : Dict → Option Object
  | nil => none
  | cons other val next =>
      let cmp := BString.compareInt key other
      if cmp < 0 then none
      else if cmp = 0 then some val
      else displaced key next

/-- What `Dict_remove` returns -/
def removed (key : BString) : Dict → ℤ
  | nil => 0
  | cons other _ next => if key = other then 1 else removed key next

inductive Operation where
  /-- `Dict_putInt`, `Dict_putString`, `Dict_putList` or `Dict_putDict`, after the kind of the
  value -/
  | put (key : BString) (value : Object)
  | remove (key : BString)

/-- What a dictionary is for: the value for each key -/
abbrev Table := BString → Option Object

namespace Operation

def apply : Operation → Dict → Dict
  | put key value, dictionary => dictionary.put key value
  | remove key, dictionary => dictionary.remove key

/-- The operation on what is in the dictionary -/
def onTable : Operation → Table → Table
  | put key value, table => Function.update table key (some value)
  | remove key, table => Function.update table key none

/-- The result tells what was in the dictionary before. -/
def Tells : Operation → Dict → Prop
  | put key _, dictionary => dictionary.displaced key = dictionary.lookup key
  | remove key, dictionary =>
      dictionary.removed key = if (dictionary.lookup key).isSome then 1 else 0

end Operation

/-- The values that are found -/
def table (dictionary : Dict) : Table :=
  fun key => dictionary.lookup key

/-- An operation does to the values what it is for, and leaves one entry for each key. -/
structure Obeys (operation : Operation) (dictionary : Dict) : Prop where
  distinct : (operation.apply dictionary).keys.Nodup
  table_eq : (operation.apply dictionary).table = operation.onTable dictionary.table
  tells : operation.Tells dictionary

/-- All operations of a run do what they are for. -/
def Laws : List Operation → Dict → Prop
  | [], _ => True
  | operation :: operations, dictionary =>
      Obeys operation dictionary ∧ Laws operations (operation.apply dictionary)

/-- The rest of a dictionary, from the entry on at which `putObject` stops -/
def reached (key : BString) : Dict → Dict
  | nil => nil
  | cons other val next =>
      if 0 < BString.compareInt key other then reached key next else cons other val next

/-- `putObject` stops at the right place: at the entry of the key, or at a greater key with none
behind it. An entry that is taken for that of the key does no harm only if both have the value
already. -/
def Finds (key : BString) (value : Object) (dictionary : Dict) : Prop :=
  match dictionary.reached key with
  | nil => True
  | cons other val next =>
      key = other ∨ (BString.compareInt key other < 0 ∧ key ∉ next.keys) ∨
        (BString.compareInt key other = 0 ∧ val = value ∧ next.lookup key = some value)

/-- Every key that is put in a run finds its place. -/
def Found : List Operation → Dict → Prop
  | [], _ => True
  | operation :: operations, dictionary =>
      (∀ key value, operation = .put key value → Finds key value dictionary) ∧
        Found operations (operation.apply dictionary)

/-! ## One operation -/

variable {key other : BString} {value val : Object} {dictionary next : Dict}
  {operation : Operation} {operations : List Operation}

theorem lookup_eq_none_iff : dictionary.lookup key = none ↔ key ∉ dictionary.keys := by
  fun_induction lookup key dictionary with
  | case1 => simp [keys]
  | case2 val next => simp [keys]
  | case3 other val next differ ih => simp [keys, differ, ih]

theorem mem_keys_put (inside : other ∈ (dictionary.put key value).keys) :
    other = key ∨ other ∈ dictionary.keys := by
  fun_induction put key value dictionary with
  | case1 => simpa [keys] using inside
  | case2 first val next cmp less => simpa [keys] using inside
  | case3 first val next cmp _ same => exact .inr inside
  | case4 first val next cmp _ _ ih =>
      rw [keys, List.mem_cons] at inside ⊢
      rcases inside with rfl | inside
      · exact .inr (.inl rfl)
      · exact (ih inside).imp_right .inr

theorem keys_remove : (dictionary.remove key).keys = dictionary.keys.erase key := by
  fun_induction remove key dictionary with
  | case1 => rfl
  | case2 val next => simp [keys]
  | case3 first val next differ ih =>
      rw [keys, keys, ih, List.erase_cons_tail]
      simpa using Ne.symm differ

theorem lookup_remove_of_ne (apart : other ≠ key) :
    (dictionary.remove key).lookup other = dictionary.lookup other := by
  fun_induction remove key dictionary with
  | case1 => rfl
  | case2 val next => simp [lookup, apart]
  | case3 first val next differ ih => simp only [lookup, ih]

theorem removed_eq :
    dictionary.removed key = if (dictionary.lookup key).isSome then 1 else 0 := by
  fun_induction removed key dictionary with
  | case1 => rfl
  | case2 val next => simp [lookup]
  | case3 first val next differ ih => simp [lookup, differ, ih]

theorem table_cons (first : BString) (val : Object) (next : Dict) :
    (cons first val next).table = Function.update next.table first (some val) := by
  funext other
  by_cases same : other = first
  · rw [same, Function.update_self, table, lookup, if_pos rfl]
  · rw [Function.update_of_ne same, table, lookup, if_neg same, table]

/-- Behind a smaller key, putting a key does what it does on the rest. -/
theorem obeys_put_cons {first : BString} (distinct : (cons first val next).keys.Nodup)
    (apart : key ≠ first) (later : 0 < BString.compareInt key first) :
    Obeys (.put key value) (cons first val next) ↔ Obeys (.put key value) next := by
  have notLess : ¬BString.compareInt key first < 0 := by omega
  have notSame : BString.compareInt key first ≠ 0 := by omega
  have puts : (cons first val next).put key value = cons first val (next.put key value) := by
    rw [put, if_neg notLess, if_neg notSame]
  have tells : Operation.Tells (.put key value) (cons first val next) ↔
      Operation.Tells (.put key value) next := by
    rw [Operation.Tells, Operation.Tells, displaced, if_neg notLess, if_neg notSame, lookup,
      if_neg apart]
  rw [keys, List.nodup_cons] at distinct
  have fresh : first ∉ (next.put key value).keys := by
    intro inside
    rcases mem_keys_put inside with same | inside
    · exact apart same.symm
    · exact distinct.1 inside
  constructor
  · rintro ⟨once, values, returns⟩
    rw [Operation.apply, puts, keys, List.nodup_cons] at once
    refine ⟨once.2, ?_, tells.mp returns⟩
    rw [Operation.apply, Operation.onTable, puts, table_cons, table_cons,
      Function.update_comm apart.symm] at values
    funext other
    have value := congrFun values other
    by_cases same : other = first
    · subst same
      rw [Operation.apply, Operation.onTable, Function.update_of_ne apart.symm, table, table,
        lookup_eq_none_iff.mpr fresh, lookup_eq_none_iff.mpr distinct.1]
    · rwa [Function.update_of_ne same, Function.update_of_ne same] at value
  · rintro ⟨once, values, returns⟩
    rw [Operation.apply, Operation.onTable] at values
    refine ⟨?_, ?_, tells.mpr returns⟩
    · rw [Operation.apply, puts, keys, List.nodup_cons]
      exact ⟨fresh, once⟩
    · rw [Operation.apply, Operation.onTable, puts, table_cons, table_cons, values,
        Function.update_comm apart.symm]

/-- In front of a greater key, putting a key does what it is for if the key is not behind it. -/
theorem obeys_put_of_neg {first : BString} (distinct : (cons first val next).keys.Nodup)
    (less : BString.compareInt key first < 0) :
    Obeys (.put key value) (cons first val next) ↔ key ∉ next.keys := by
  have apart : key ≠ first := by
    rintro rfl
    simp at less
  have puts : (cons first val next).put key value = cons key value (cons first val next) := by
    rw [put, if_pos less]
  constructor
  · intro obeys inside
    have once := obeys.distinct
    rw [Operation.apply, puts, keys, List.nodup_cons] at once
    exact once.1 (List.mem_cons_of_mem _ inside)
  · intro absent
    have fresh : key ∉ (cons first val next).keys := by
      simp [keys, apart, absent]
    refine ⟨?_, ?_, ?_⟩
    · rw [Operation.apply, puts, keys, List.nodup_cons]
      exact ⟨fresh, distinct⟩
    · rw [Operation.apply, Operation.onTable, puts, table_cons]
    · rw [Operation.Tells, displaced, if_pos less, lookup_eq_none_iff.mpr fresh]

/-- Where the entry of another key is taken for that of the key, nothing must change. -/
theorem obeys_put_of_zero {first : BString} (distinct : (cons first val next).keys.Nodup)
    (apart : key ≠ first) (zero : BString.compareInt key first = 0) :
    Obeys (.put key value) (cons first val next) ↔
      val = value ∧ next.lookup key = some value := by
  have notLess : ¬BString.compareInt key first < 0 := by omega
  have puts : (cons first val next).put key value = cons first value next := by
    rw [put, if_neg notLess, if_pos zero]
  have returns : (cons first val next).displaced key = some val := by
    rw [displaced, if_neg notLess, if_pos zero]
  constructor
  · rintro ⟨_, values, _⟩
    rw [Operation.apply, Operation.onTable, puts, table_cons, table_cons] at values
    have here := congrFun values key
    have there := congrFun values first
    rw [Function.update_of_ne apart, Function.update_self] at here
    rw [Function.update_self, Function.update_of_ne apart.symm, Function.update_self] at there
    exact ⟨(Option.some.inj there).symm, here⟩
  · rintro ⟨rfl, known⟩
    have kept : (cons first val next).table key = some val := by
      rw [table, lookup, if_neg apart, known]
    refine ⟨?_, ?_, ?_⟩
    · rw [Operation.apply, puts, keys]
      exact distinct
    · rw [Operation.apply, Operation.onTable, puts, ← kept, Function.update_eq_self]
    · rw [Operation.Tells, returns]
      exact kept.symm

theorem obeys_put_self (distinct : (cons key val next).keys.Nodup) :
    Obeys (.put key value) (cons key val next) := by
  have puts : (cons key val next).put key value = cons key value next := by simp [put]
  refine ⟨?_, ?_, ?_⟩
  · rw [Operation.apply, puts, keys]
    exact distinct
  · rw [Operation.apply, Operation.onTable, puts, table_cons, table_cons, Function.update_idem]
  · simp [Operation.Tells, displaced, lookup]

/-- Putting a key does what it is for exactly if the key finds its place. -/
theorem obeys_put_iff (distinct : dictionary.keys.Nodup) :
    Obeys (.put key value) dictionary ↔ Finds key value dictionary := by
  fun_induction put key value dictionary with
  | case1 =>
      refine iff_of_true ⟨?_, table_cons _ _ _, rfl⟩ trivial
      simp [Operation.apply, put, keys]
  | case2 first val next cmp less =>
      have apart : key ≠ first := by
        rintro rfl
        simp [cmp] at less
      rw [obeys_put_of_neg distinct less, Finds, reached, if_neg (not_lt.mpr less.le)]
      constructor
      · exact fun absent => .inr (.inl ⟨less, absent⟩)
      · rintro (same | ⟨_, absent⟩ | ⟨zero, _⟩)
        · exact absurd same apart
        · exact absent
        · exact absurd zero less.ne
  | case3 first val next cmp less zero =>
      rw [Finds, reached, if_neg (not_lt.mpr zero.le)]
      by_cases same : key = first
      · subst same
        exact iff_of_true (obeys_put_self distinct) (.inl rfl)
      · rw [obeys_put_of_zero distinct same zero]
        constructor
        · exact fun known => .inr (.inr ⟨zero, known⟩)
        · rintro (equal | ⟨negative, _⟩ | ⟨_, known⟩)
          · exact absurd equal same
          · exact absurd negative less
          · exact known
  | case4 first val next cmp less differ ih =>
      have later : 0 < BString.compareInt key first := by omega
      have apart : key ≠ first := by
        rintro rfl
        simp at later
      have tail := distinct
      rw [keys, List.nodup_cons] at tail
      have skips : (cons first val next).reached key = next.reached key := by
        rw [reached, if_pos later]
      rw [obeys_put_cons distinct apart later, ih tail.2, Finds, Finds, skips]

theorem table_remove (distinct : dictionary.keys.Nodup) :
    (dictionary.remove key).table = Function.update dictionary.table key none := by
  funext other
  by_cases same : other = key
  · rw [same, Function.update_self]
    apply lookup_eq_none_iff.mpr
    rw [keys_remove]
    exact distinct.not_mem_erase
  · rw [Function.update_of_ne same]
    exact lookup_remove_of_ne same

/-- An operation does what it is for unless it puts a key that does not find its place. -/
theorem obeys_iff (distinct : dictionary.keys.Nodup) :
    Obeys operation dictionary ↔
      ∀ key value, operation = .put key value → Finds key value dictionary := by
  cases operation with
  | put key value =>
      rw [obeys_put_iff distinct]
      constructor
      · rintro finds _ _ ⟨⟩
        exact finds
      · intro finds
        exact finds key value rfl
  | remove key =>
      refine iff_of_true ?_ fun other value impossible => by cases impossible
      refine ⟨?_, table_remove distinct, removed_eq⟩
      change (dictionary.remove key).keys.Nodup
      rw [keys_remove]
      exact distinct.erase key

/-! ## Runs -/

/-- A run on a dictionary with one entry for each key does what it is for exactly if every key that
is put finds its place. -/
theorem laws_iff (distinct : dictionary.keys.Nodup) :
    Laws operations dictionary ↔ Found operations dictionary := by
  induction operations generalizing dictionary with
  | nil => exact Iff.rfl
  | cons operation operations ih =>
      rw [Laws, Found, obeys_iff distinct]
      constructor
      · rintro ⟨finds, laws⟩
        have obeys := (obeys_iff distinct).mpr finds
        exact ⟨finds, (ih obeys.distinct).mp laws⟩
      · rintro ⟨finds, rest⟩
        have obeys := (obeys_iff distinct).mpr finds
        exact ⟨finds, (ih obeys.distinct).mpr rest⟩

/-- What a lawful run does to the values is what its operations are for, one after the other. -/
theorem table_of_laws (laws : Laws operations dictionary) :
    (operations.foldl (fun dictionary operation => operation.apply dictionary) dictionary).table =
      operations.foldl (fun table operation => operation.onTable table) dictionary.table := by
  induction operations generalizing dictionary with
  | nil => rfl
  | cons operation operations ih =>
      rw [List.foldl_cons, List.foldl_cons, ih laws.2, laws.1.table_eq]

/-! ## Keys of ordinary length -/

theorem mem_keys_putObject :
    other ∈ (dictionary.putObject key value).keys ↔ other = key ∨ other ∈ dictionary.keys := by
  fun_induction putObject key value dictionary with
  | case1 => simp [keys]
  | case2 first val next cmp less => simp [keys]
  | case3 first val next cmp _ same =>
      have equal : key = first := BString.compare_eq_zero_iff.mp same
      simp [keys, equal]
  | case4 first val next cmp _ _ ih =>
      simp only [keys, List.mem_cons, ih]
      tauto

/-- The keys ascend. -/
def Ascending (dictionary : Dict) : Prop :=
  dictionary.keys.Pairwise fun first second => BString.compare first second < 0

theorem Ascending.nodup (ascending : Ascending dictionary) : dictionary.keys.Nodup := by
  apply List.Pairwise.imp _ ascending
  intro first second less same
  have zero := BString.compare_eq_zero_iff.mpr same
  omega

theorem Ascending.putObject (ascending : Ascending dictionary) :
    Ascending (dictionary.putObject key value) := by
  fun_induction Dict.putObject key value dictionary with
  | case1 => exact List.pairwise_singleton _ _
  | case2 first val next cmp less =>
      apply List.pairwise_cons.mpr
      refine ⟨fun other inside => ?_, ascending⟩
      rcases List.mem_cons.mp inside with rfl | inside
      · exact less
      · exact BString.compare_trans less ((List.pairwise_cons.mp ascending).1 other inside)
  | case3 first val next cmp less same => exact ascending
  | case4 first val next cmp less differ ih =>
      have split := List.pairwise_cons.mp ascending
      apply List.pairwise_cons.mpr
      refine ⟨fun other inside => ?_, ih split.2⟩
      rcases mem_keys_putObject.mp inside with rfl | inside
      · apply BString.compare_pos_iff.mp
        omega
      · exact split.1 other inside

theorem Ascending.remove (ascending : Ascending dictionary) :
    Ascending (dictionary.remove key) := by
  rw [Ascending, keys_remove]
  exact List.Pairwise.sublist List.erase_sublist ascending

/-- All keys are shorter than 2 gigabytes. -/
def Short (dictionary : Dict) : Prop :=
  ∀ key ∈ dictionary.keys, key.length < 2 ^ 31

/-- For such keys the two functions do the same. -/
theorem put_eq_putObject (short : key.length < 2 ^ 31) (shorts : dictionary.Short) :
    dictionary.put key value = dictionary.putObject key value := by
  fun_induction put key value dictionary with
  | case1 => rfl
  | case2 first val next cmp less =>
      have exact := BString.compareInt_eq_compare short (shorts first List.mem_cons_self)
      rw [putObject, ← exact, if_pos less]
  | case3 first val next cmp less same =>
      have exact := BString.compareInt_eq_compare short (shorts first List.mem_cons_self)
      rw [putObject, ← exact, if_neg less, if_pos same]
  | case4 first val next cmp less differ ih =>
      have exact := BString.compareInt_eq_compare short (shorts first List.mem_cons_self)
      rw [putObject, ← exact, if_neg less, if_neg differ,
        ih fun other inside => shorts other (List.mem_cons_of_mem _ inside)]

/-- In a dictionary whose keys ascend every key finds its place. -/
theorem Ascending.finds (ascending : Ascending dictionary) (short : key.length < 2 ^ 31)
    (shorts : dictionary.Short) : Finds key value dictionary := by
  fun_induction reached key dictionary with
  | case1 => trivial
  | case2 first val next later ih =>
      have rest := ih (List.pairwise_cons.mp ascending).2
        fun other inside => shorts other (List.mem_cons_of_mem _ inside)
      rwa [Finds, reached, if_pos later]
  | case3 first val next stops =>
      rw [Finds, reached, if_neg stops]
      have exact := BString.compareInt_eq_compare short (shorts first List.mem_cons_self)
      rcases (not_lt.mp stops).lt_or_eq with less | same
      · refine .inr (.inl ⟨less, fun inside => ?_⟩)
        have behind := (List.pairwise_cons.mp ascending).1 key inside
        rw [exact, ← BString.compare_pos_iff] at less
        omega
      · rw [exact] at same
        exact .inl (BString.compare_eq_zero_iff.mp same)

/-- The keys that are put in a run are shorter than 2 gigabytes. -/
def ShortPuts (operations : List Operation) : Prop :=
  ∀ key value, Operation.put key value ∈ operations → key.length < 2 ^ 31

theorem found_of_ascending (ascending : Ascending dictionary) (shorts : dictionary.Short)
    (short : ShortPuts operations) : Found operations dictionary := by
  induction operations generalizing dictionary with
  | nil => trivial
  | cons operation operations ih =>
      have rest : ShortPuts operations :=
        fun key value inside => short key value (List.mem_cons_of_mem _ inside)
      constructor
      · rintro key value rfl
        exact ascending.finds (short key value List.mem_cons_self) shorts
      · cases operation with
        | put key value =>
            have length := short key value List.mem_cons_self
            apply ih _ _ rest
            · rw [Operation.apply, put_eq_putObject length shorts]
              exact ascending.putObject
            · intro other inside
              rcases mem_keys_put inside with rfl | inside
              · exact length
              · exact shorts other inside
        | remove key =>
            apply ih ascending.remove _ rest
            intro other inside
            change other ∈ (dictionary.remove key).keys at inside
            rw [keys_remove] at inside
            exact shorts other (List.mem_of_mem_erase inside)

/-- On a dictionary from `Dict_new` every run with such keys does what it is for. -/
theorem laws_new (short : ShortPuts operations) : Laws operations .nil := by
  have ascending : Ascending .nil := List.Pairwise.nil
  apply (laws_iff ascending.nodup).mpr
  exact found_of_ascending ascending (fun _ inside => absurd inside List.not_mem_nil) short

/-! ## Parsed dictionaries -/

open StandardBencSerializer in
/-- The dictionary `d1:bi1e1:ai2ee`, whose keys do not ascend -/
theorem laws_parsed_descending :
    ∃ dictionary, (parseDictionary false (newReader [0x64, 0x31, 0x3A, 0x62, 0x69, 0x31, 0x65, 0x31,
        0x3A, 0x61, 0x69, 0x32, 0x65, 0x65] 0)).toOption.map Prod.fst = some dictionary ∧
      Laws [.put [0x61] (.integer 3), .remove [0x62], .put [0x63] (.integer 4)] dictionary := by
  refine ⟨.cons [0x61] (.integer 2) (.cons [0x62] (.integer 1) .nil), rfl, ?_⟩
  apply (laws_iff (by decide)).mpr
  apply found_of_ascending
  · exact List.pairwise_pair.mpr (by decide)
  · simp [Short, keys]
  · rintro key value inside
    simp only [List.mem_cons, Operation.put.injEq, reduceCtorEq, List.not_mem_nil, or_false,
      false_or] at inside
    rcases inside with ⟨rfl, rfl⟩ | ⟨rfl, rfl⟩ <;> simp

open StandardBencSerializer in
/-- The dictionary `d1:ai1e1:bi2ee`, whose keys ascend, is parsed to one where they descend, and
putting the first key once more makes a second entry. -/
theorem parsed_key_put_twice :
    ∃ dictionary, (parseDictionary false (newReader [0x64, 0x31, 0x3A, 0x61, 0x69, 0x31, 0x65, 0x31,
        0x3A, 0x62, 0x69, 0x32, 0x65, 0x65] 0)).toOption.map Prod.fst = some dictionary ∧
      dictionary.keys.Nodup ∧ ¬ Laws [.put [0x61] (.integer 3)] dictionary := by
  refine ⟨.cons [0x62] (.integer 2) (.cons [0x61] (.integer 1) .nil), rfl, by decide, ?_⟩
  intro laws
  exact absurd laws.1.distinct (by decide)

end Dict

end Cjdns
