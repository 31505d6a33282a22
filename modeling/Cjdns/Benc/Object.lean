import Mathlib.Tactic

/-!
# Benc objects

The objects that the admin interface, the DHT and the tunnels exchange, as linked lists of
`Object.h`, with the functions of `Dict.c` that look up, put and remove an entry.
-/

namespace Cjdns

/-- `String`, which may contain any bytes -/
abbrev BString := List (BitVec 8)

mutual

/-- `Object` -/
inductive Object where
  | string (bytes : BString)
  | integer (number : BitVec 64)
  | list (list : BList)
  | dict (dictionary : Dict)

/-- `List`, a chain of `struct List_Item` -/
inductive BList where
  | nil
  | cons (elem : Object) (next : BList)

/-- `Dict`, a chain of `struct Dict_Entry` -/
inductive Dict where
  | nil
  | cons (key : BString) (val : Object) (next : Dict)

end

namespace BString

/-- `String_compare`, for strings whose lengths differ by less than 2^31 (`compareInt` is for
all); a `char` is signed. -/
def compare : BString → BString → ℤ
  | [], [] => 0
  | [], second => -second.length
  | first, [] => first.length
  | one :: first, two :: second =>
      if one = two then compare first second else one.toInt - two.toInt

end BString

namespace Dict

/-- `lookupObject` -/
def lookup (key : BString) : Dict → Option Object
  | nil => none
  | cons other val next => if key = other then some val else lookup key next

/-- `Dict_getString` -/
def getString (key : BString) (dictionary : Dict) : Option BString :=
  match dictionary.lookup key with
  | some (.string bytes) => some bytes
  | _ => none

/-- `Dict_getInt` -/
def getInt (key : BString) (dictionary : Dict) : Option (BitVec 64) :=
  match dictionary.lookup key with
  | some (.integer number) => some number
  | _ => none

/-- `Dict_getList` -/
def getList (key : BString) (dictionary : Dict) : Option BList :=
  match dictionary.lookup key with
  | some (.list list) => some list
  | _ => none

/-- `Dict_getDict` -/
def getDict (key : BString) (dictionary : Dict) : Option Dict :=
  match dictionary.lookup key with
  | some (.dict entries) => some entries
  | _ => none

/-- `putObject`, for keys of such lengths (`put` is for all), as those of every message of the
program are -/
def putObject (key : BString) (value : Object) : Dict → Dict
  | nil => cons key value nil
  | cons other val next =>
      let cmp := BString.compare key other
      if cmp < 0 then cons key value (cons other val next)
      else if cmp = 0 then cons other value next
      else cons other val (putObject key value next)

/-- `Dict_remove` -/
def remove (key : BString) : Dict → Dict
  | nil => nil
  | cons other val next => if key = other then next else cons other val (remove key next)

end Dict

/-! ## Looking up what was put -/

/-- Only equal strings compare as equal. -/
theorem BString.compare_eq_zero_iff {first second : BString} :
    BString.compare first second = 0 ↔ first = second := by
  induction first generalizing second with
  | nil => cases second <;> simp [BString.compare]; omega
  | cons one first ih =>
      cases second with
      | nil =>
          simp only [BString.compare, List.length_cons, reduceCtorEq, iff_false]
          omega
      | cons two second =>
          rw [BString.compare]
          split_ifs with same
          · rw [ih, same, List.cons_inj_right]
          · have apart : one.toInt ≠ two.toInt := fun equal => same (BitVec.toInt_inj.mp equal)
            simp only [List.cons.injEq, same, false_and, iff_false]
            omega

namespace Dict

/-- The value that was put is found. -/
@[simp]
theorem lookup_putObject_self (key : BString) (value : Object) (dictionary : Dict) :
    (dictionary.putObject key value).lookup key = some value := by
  fun_induction putObject key value dictionary with
  | case1 => simp [lookup]
  | case2 other val next cmp less => simp [lookup]
  | case3 other val next cmp _ same => simp [lookup, BString.compare_eq_zero_iff.mp same]
  | case4 other val next cmp _ differ ih =>
      have apart : key ≠ other := fun equal => differ (BString.compare_eq_zero_iff.mpr equal)
      rw [lookup, if_neg apart, ih]

/-- Other keys are not touched. -/
theorem lookup_putObject_of_ne {key other : BString} (apart : other ≠ key) (value : Object)
    (dictionary : Dict) :
    (dictionary.putObject key value).lookup other = dictionary.lookup other := by
  fun_induction putObject key value dictionary with
  | case1 => simp [lookup, apart]
  | case2 next val rest cmp less => simp [lookup, apart]
  | case3 next val rest cmp _ same =>
      have equal := BString.compare_eq_zero_iff.mp same
      rw [lookup, lookup, ← equal, if_neg apart, if_neg apart]
  | case4 next val rest cmp _ differ ih => rw [lookup, lookup, ih]

end Dict

end Cjdns
