import Cjdns.Benc.BencodeParser

/-!
# Reading what the bencode serializer wrote

What is written is a strict word, so the parser reads it back, with the entries of every
dictionary in reverse, unless it takes an extreme integer for one out of range.
-/

namespace Cjdns.StandardBencSerializer

open Decimal

/-- A size fits the buffer for it. -/
theorem isString_serialize {string : BString} (small : string.length < 2 ^ 63) :
    IsString true (serializeString string) string := by
  have size : ofInt (BitVec.ofNat 64 string.length).toInt = ofNat string.length := by
    have same : (BitVec.ofNat 64 string.length).toInt = string.length := by
      rw [BitVec.toInt_ofNat', Int.bmod_eq_of_le (by omega) (by omega)]
    rw [same, ofInt_natCast]
  rw [serializeString, size]
  exact .intro (fun _ inside => isDigit_of_mem_ofNat inside)
    (length_ofNat_le (by omega) (lt_trans small (by norm_num))) (fun _ => ofNat_ne_nil _)
    (value_ofNat _)

theorem isInteger_serialize (integer : BitVec 64) :
    IsInteger (serializeint64_t integer) integer := by
  have low := BitVec.le_toInt integer
  have high := @BitVec.toInt_lt 64 integer
  have length : (ofNat integer.toInt.natAbs).length ≤ 20 :=
    length_ofNat_le (by omega) (lt_of_le_of_lt (show _ ≤ 2 ^ 63 by omega) (by norm_num))
  have text : ofInt integer.toInt = signed (integer.toInt < 0) (ofNat integer.toInt.natAbs) := by
    by_cases negative : integer.toInt < 0
    · rw [ofInt, if_pos negative, signed, if_pos (decide_eq_true negative)]
      rfl
    · rw [ofInt, if_neg negative, signed, if_neg (by simpa using negative)]
      rfl
  rw [serializeint64_t, text]
  refine .intro (fun _ inside => isDigit_of_mem_ofNat inside) (ofNat_ne_nil _) ?_ ?_
  · rw [signed, List.length_append]
    split_ifs <;> simp only [List.length_cons, List.length_nil] <;> omega
  · rw [signedValue, value_ofNat]
    split_ifs with negative <;> simp only [decide_eq_true_eq] at negative <;> omega

mutual

theorem isValue_serialize : ∀ object : Object, (serializeGeneric object).length < 2 ^ 63 →
    IsValue true (serializeGeneric object) object
  | .string bytes, small => by
      rw [serializeGeneric, serializeString, List.length_append, List.length_cons] at small
      exact .string (isString_serialize (by omega))
  | .integer number, _ => .integer (isInteger_serialize number)
  | .list list, small => by
      rw [serializeGeneric, List.length_cons] at small
      exact .list (isItems_serialize list (by omega))
  | .dict dictionary, small => by
      rw [serializeGeneric, List.length_cons] at small
      exact .dict (isEntries_serialize dictionary (by omega))

theorem isItems_serialize : ∀ list : BList, (serializeItems list).length < 2 ^ 63 →
    IsItems true (serializeItems list) list
  | .nil, _ => .nil
  | .cons elem next, small => by
      rw [serializeItems, List.length_append] at small
      exact .cons (isValue_serialize elem (by omega)) (isItems_serialize next (by omega))

theorem isEntries_serialize : ∀ dictionary : Dict,
    (serializeEntries dictionary).length < 2 ^ 63 →
      IsEntries true (serializeEntries dictionary) dictionary
  | .nil, _ => .nil
  | .cons key val next, small => by
      rw [serializeEntries, List.length_append, List.length_append] at small
      have size : key.length < 2 ^ 63 := by
        rw [serializeString, List.length_append, List.length_cons] at small
        omega
      exact .cons (isString_serialize size) (isValue_serialize val (by omega))
        (isEntries_serialize next (by omega))

end

/-- What is written is a word. -/
theorem isDictionary_serialize {dictionary : Dict}
    (small : (serializeDictionary dictionary).length < 2 ^ 63) :
    IsDictionary true (serializeDictionary dictionary) dictionary := by
  rw [serializeDictionary, List.length_cons] at small
  exact .intro (isEntries_serialize dictionary (by omega))

/-- The parser reads all that was written and returns an equal tree. -/
def RoundTrips (erange : Bool) (behind : BitVec 8) (dictionary : Dict) : Prop :=
  ∃ output reader,
    parseDictionary erange (newReader (serializeDictionary dictionary) behind) =
        .ok (output, reader) ∧
      bytesRead (newReader (serializeDictionary dictionary) behind) reader =
        (serializeDictionary dictionary).length ∧
      dictionary.Same output

/-- A dictionary is read back unless `errno` is `ERANGE` and there is an extreme integer. -/
theorem roundTrips_iff {erange : Bool} {behind : BitVec 8} {dictionary : Dict}
    (small : (serializeDictionary dictionary).length < 2 ^ 63) :
    RoundTrips erange behind dictionary ↔ ¬(erange = true ∧ dictionary.hasExtreme = true) := by
  have word := (isDictionary_serialize small).lenient
  have bound : (newReader (serializeDictionary dictionary) behind).length < 2 ^ 64 := by
    rw [newReader, List.length_append, List.length_singleton]
    omega
  constructor
  · rintro ⟨output, reader, parsed, -, -⟩ ⟨old, extreme⟩
    rcases (parseDictionary_eq_ok bound).mp parsed with ⟨other, tree, isTree, -, fine, same⟩
    rcases word_unique bound word isTree (List.prefix_append _ _) ⟨reader, same.symm⟩ with ⟨-, rfl⟩
    rw [fine old] at extreme
    cases extreme
  · intro fine
    refine ⟨dictionary.mirrorOnto .nil, [behind], (parseDictionary_eq_ok bound).mpr
      ⟨_, dictionary, word, rfl, fun old => Bool.eq_false_iff.mpr fun extreme =>
        fine ⟨old, extreme⟩, rfl⟩, bytesRead_append _ _, dictionary.same_mirror⟩

/-- A list in a dictionary -/
theorem roundTrips_of_list :
    RoundTrips true 0 (.cons [] (.list (.cons (.integer 5) .nil)) .nil) :=
  (roundTrips_iff (by decide +kernel)).mpr (by decide)

/-- The largest integer is not read back behind a failure that left `ERANGE`. -/
theorem largest_refused : ¬RoundTrips true 0 (.cons [0x61] (.integer 0x7FFFFFFFFFFFFFFF) .nil) := by
  rintro ⟨output, reader, parsed, -, -⟩
  have refused : (parseDictionary true (newReader
      (serializeDictionary (.cons [0x61] (.integer 0x7FFFFFFFFFFFFFFF) .nil)) 0)).isOk = false := by
    decide +kernel
  rw [parsed] at refused
  cases refused

end Cjdns.StandardBencSerializer
