import Cjdns.Benc.StandardBencSerializer

/-!
# The language of bencode

The words of the grammar with the objects they stand for. The strict grammar is that of
bencode; in the lenient one, a key may do without the digits of its size, which then is zero.
A dictionary is read with its entries in reverse.
-/

namespace Cjdns

open Decimal StandardBencSerializer

/-! ## Words -/

/-- A string with its size in front -/
inductive IsString (strict : Bool) : BString → BString → Prop where
  | intro {digits content : BString} (all : ∀ digit ∈ digits, isDigit digit = true)
      (short : digits.length ≤ 21) (some : strict = true → digits ≠ [])
      (size : value digits = content.length) :
      IsString strict (digits ++ COLON :: content) content

/-- The text of a sign and digits -/
def signed (negative : Bool) (digits : BString) : BString :=
  (if negative then [MINUS] else []) ++ digits

/-- The number that a sign and digits stand for -/
def signedValue (negative : Bool) (digits : BString) : ℤ :=
  if negative then -(value digits : ℤ) else value digits

inductive IsInteger : BString → BitVec 64 → Prop where
  | intro {negative : Bool} {digits : BString} {number : BitVec 64}
      (all : ∀ digit ∈ digits, isDigit digit = true) (some : digits ≠ [])
      (short : (signed negative digits).length ≤ 21)
      (is : number.toInt = signedValue negative digits) :
      IsInteger (I :: (signed negative digits ++ [E])) number

mutual

inductive IsValue (strict : Bool) : BString → Object → Prop where
  | string {word bytes : BString} (string : IsString true word bytes) :
      IsValue strict word (.string bytes)
  | integer {word : BString} {number : BitVec 64} (integer : IsInteger word number) :
      IsValue strict word (.integer number)
  | list {word : BString} {items : BList} (list : IsItems strict word items) :
      IsValue strict (L :: word) (.list items)
  | dict {word : BString} {entries : Dict} (dict : IsEntries strict word entries) :
      IsValue strict (D :: word) (.dict entries)

/-- The values of a list, with the `e` at its end -/
inductive IsItems (strict : Bool) : BString → BList → Prop where
  | nil : IsItems strict [E] .nil
  | cons {first rest : BString} {elem : Object} {next : BList}
      (elem_is : IsValue strict first elem) (next_is : IsItems strict rest next) :
      IsItems strict (first ++ rest) (.cons elem next)

/-- The entries of a dictionary, with the `e` at its end -/
inductive IsEntries (strict : Bool) : BString → Dict → Prop where
  | nil : IsEntries strict [E] .nil
  | cons {first second rest key : BString} {val : Object} {next : Dict}
      (key_is : IsString strict first key) (val_is : IsValue strict second val)
      (next_is : IsEntries strict rest next) :
      IsEntries strict (first ++ (second ++ rest)) (.cons key val next)

end

/-- A word for a dictionary -/
inductive IsDictionary (strict : Bool) : BString → Dict → Prop where
  | intro {word : BString} {entries : Dict} (entries_are : IsEntries strict word entries) :
      IsDictionary strict (D :: word) entries

/-! ## Equality up to the order of entries -/

mutual

inductive Object.Same : Object → Object → Prop where
  | string (bytes : BString) : Object.Same (.string bytes) (.string bytes)
  | integer (number : BitVec 64) : Object.Same (.integer number) (.integer number)
  | list {first second : BList} (items : BList.Same first second) :
      Object.Same (.list first) (.list second)
  | dict {first second : Dict} (entries : Dict.Same first second) :
      Object.Same (.dict first) (.dict second)

inductive BList.Same : BList → BList → Prop where
  | nil : BList.Same .nil .nil
  | cons {first second : Object} {one two : BList} (elem : Object.Same first second)
      (next : BList.Same one two) : BList.Same (.cons first one) (.cons second two)

inductive Dict.Same : Dict → Dict → Prop where
  | nil : Dict.Same .nil .nil
  | cons (key : BString) {first second : Object} {one two : Dict} (val : Object.Same first second)
      (next : Dict.Same one two) : Dict.Same (.cons key first one) (.cons key second two)
  | swap (key other : BString) (val otherVal : Object) (next : Dict) :
      Dict.Same (.cons key val (.cons other otherVal next))
        (.cons other otherVal (.cons key val next))
  | trans {first second third : Dict} (one : Dict.Same first second)
      (two : Dict.Same second third) : Dict.Same first third

end

/-! ## Mirrored dictionaries -/

mutual

/-- The object with the entries of its dictionaries in reverse -/
def Object.mirror : Object → Object
  | .string bytes => .string bytes
  | .integer number => .integer number
  | .list list => .list list.mirror
  | .dict dictionary => .dict (dictionary.mirrorOnto .nil)

def BList.mirror : BList → BList
  | .nil => .nil
  | .cons elem next => .cons elem.mirror next.mirror

/-- The entries in reverse in front of others -/
def Dict.mirrorOnto : Dict → Dict → Dict
  | .nil, rest => rest
  | .cons key val next, rest => next.mirrorOnto (.cons key val.mirror rest)

end

/-- One dictionary in front of another -/
def Dict.append : Dict → Dict → Dict
  | .nil, rest => rest
  | .cons key val next, rest => .cons key val (next.append rest)

mutual

theorem Object.same_refl : ∀ object : Object, object.Same object
  | .string bytes => .string bytes
  | .integer number => .integer number
  | .list list => .list (BList.same_refl list)
  | .dict dictionary => .dict (Dict.same_refl dictionary)

theorem BList.same_refl : ∀ list : BList, list.Same list
  | .nil => .nil
  | .cons elem next => .cons (Object.same_refl elem) (BList.same_refl next)

theorem Dict.same_refl : ∀ dictionary : Dict, dictionary.Same dictionary
  | .nil => .nil
  | .cons key val next => .cons key (Object.same_refl val) (Dict.same_refl next)

end

/-- The first entry may stand behind a number of others. -/
theorem Dict.same_append_cons (key : BString) (val : Object) (back : Dict) : ∀ front : Dict,
    Dict.Same (.cons key val (front.append back)) (front.append (.cons key val back))
  | .nil => Dict.same_refl _
  | .cons other otherVal next =>
      .trans (.swap key other val otherVal _)
        (.cons other (Object.same_refl otherVal) (Dict.same_append_cons key val back next))

theorem Dict.append_nil : ∀ dictionary : Dict, dictionary.append .nil = dictionary
  | .nil => rfl
  | .cons key val next => by rw [Dict.append, Dict.append_nil next]

mutual

theorem Object.same_mirror : ∀ object : Object, object.Same object.mirror
  | .string bytes => .string bytes
  | .integer number => .integer number
  | .list list => .list (BList.same_mirror list)
  | .dict dictionary => by
      have whole := Dict.same_mirrorOnto dictionary .nil .nil .nil
      rw [Dict.append_nil] at whole
      exact .dict whole

theorem BList.same_mirror : ∀ list : BList, list.Same list.mirror
  | .nil => .nil
  | .cons elem next => .cons (Object.same_mirror elem) (BList.same_mirror next)

theorem Dict.same_mirrorOnto : ∀ dictionary base rest : Dict, base.Same rest →
    (dictionary.append base).Same (dictionary.mirrorOnto rest)
  | .nil, _, _, same => same
  | .cons key val next, base, rest, same =>
      .trans (Dict.same_append_cons key val base next)
        (Dict.same_mirrorOnto next (.cons key val base) (.cons key val.mirror rest)
          (.cons key (Object.same_mirror val) same))

end

/-- A mirrored dictionary is the same up to the order of entries. -/
theorem Dict.same_mirror (dictionary : Dict) : dictionary.Same (dictionary.mirrorOnto .nil) := by
  have whole := Dict.same_mirrorOnto dictionary .nil .nil .nil
  rwa [Dict.append_nil] at whole

mutual

theorem Object.mirror_mirror : ∀ object : Object, object.mirror.mirror = object
  | .string _ => rfl
  | .integer _ => rfl
  | .list list => by rw [Object.mirror, Object.mirror, BList.mirror_mirror list]
  | .dict dictionary => by
      rw [Object.mirror, Object.mirror, Dict.mirrorOnto_mirrorOnto dictionary, Dict.mirrorOnto,
        Dict.append_nil]

theorem BList.mirror_mirror : ∀ list : BList, list.mirror.mirror = list
  | .nil => rfl
  | .cons elem next => by
      rw [BList.mirror, BList.mirror, Object.mirror_mirror elem, BList.mirror_mirror next]

/-- Entries that are mirrored twice are in front of the others as they were. -/
theorem Dict.mirrorOnto_mirrorOnto : ∀ dictionary rest base : Dict,
    (dictionary.mirrorOnto rest).mirrorOnto base = rest.mirrorOnto (dictionary.append base)
  | .nil, _, _ => rfl
  | .cons key val next, rest, base => by
      rw [Dict.mirrorOnto, Dict.mirrorOnto_mirrorOnto next, Dict.mirrorOnto,
        Object.mirror_mirror val, Dict.append]

end

theorem Dict.mirror_mirror (dictionary : Dict) :
    (dictionary.mirrorOnto .nil).mirrorOnto .nil = dictionary := by
  rw [Dict.mirrorOnto_mirrorOnto, Dict.mirrorOnto, Dict.append_nil]

/-! ## Extreme integers -/

/-- `INT64_MAX` or `INT64_MIN` -/
def isExtreme (number : BitVec 64) : Bool :=
  number = 0x7FFFFFFFFFFFFFFF ∨ number = 0x8000000000000000

mutual

/-- The object contains an extreme integer. -/
def Object.hasExtreme : Object → Bool
  | .string _ => false
  | .integer number => isExtreme number
  | .list list => list.hasExtreme
  | .dict dictionary => dictionary.hasExtreme

def BList.hasExtreme : BList → Bool
  | .nil => false
  | .cons elem next => elem.hasExtreme || next.hasExtreme

def Dict.hasExtreme : Dict → Bool
  | .nil => false
  | .cons _ val next => val.hasExtreme || next.hasExtreme

end

theorem isExtreme_iff {number : BitVec 64} :
    isExtreme number = true ↔ number.toInt = 2 ^ 63 - 1 ∨ number.toInt = -2 ^ 63 := by
  rw [isExtreme, decide_eq_true_eq, ← BitVec.toInt_inj, ← BitVec.toInt_inj]
  rfl

/-! ## Words of both grammars -/

theorem IsString.lenient {strict : Bool} {word content : BString}
    (string : IsString strict word content) : IsString false word content := by
  rcases string with ⟨all, short, -, size⟩
  exact .intro all short (fun impossible => by cases impossible) size

mutual

theorem IsValue.lenient {word : BString} {object : Object} :
    IsValue true word object → IsValue false word object
  | .string string => .string string
  | .integer integer => .integer integer
  | .list list => .list list.lenient
  | .dict dict => .dict dict.lenient

theorem IsItems.lenient {word : BString} {items : BList} :
    IsItems true word items → IsItems false word items
  | .nil => .nil
  | .cons elem next => .cons elem.lenient next.lenient

theorem IsEntries.lenient {word : BString} {entries : Dict} :
    IsEntries true word entries → IsEntries false word entries
  | .nil => .nil
  | .cons key val next => .cons key.lenient val.lenient next.lenient

end

/-- Every strict word is a lenient one. -/
theorem IsDictionary.lenient {word : BString} {entries : Dict} :
    IsDictionary true word entries → IsDictionary false word entries
  | .intro entries => .intro entries.lenient

end Cjdns
