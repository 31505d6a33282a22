import Cjdns.Benc.JsonReadBack

/-!
# Reading what the JSON serializer wrote

A dictionary is read back as it was if it holds nothing that is escaped or refused, and its text
does not need more white space than `PAD` can write.
-/

namespace Cjdns

open Decimal StandardBencSerializer JsonBencSerializer

mutual

/-- What is written at a padding, and read as it was -/
def Object.survives (erange : Bool) (pad : ℕ) : Object → Bool
  | .string bytes => bytes.all isPlain
  | .integer number => 0 ≤ number.toInt && !(erange && number = 0x7FFFFFFFFFFFFFFF)
  | .list list => pad ≤ 32 && list.survives erange (pad + 2)
  | .dict dictionary => pad ≤ 32 && dictionary.survives erange (pad + 2)

def BList.survives (erange : Bool) (pad : ℕ) : BList → Bool
  | .nil => true
  | .cons elem next => pad ≤ 32 && (elem.survives erange pad && next.survives erange pad)

def Dict.survives (erange : Bool) (pad : ℕ) : Dict → Bool
  | .nil => true
  | .cons key val next =>
      pad ≤ 32 && (key.all isPlain && (val.survives erange pad && next.survives erange pad))

end

mutual

/-- The object contains a negative integer. -/
def Object.hasNegative : Object → Bool
  | .string _ => false
  | .integer number => number.toInt < 0
  | .list list => list.hasNegative
  | .dict dictionary => dictionary.hasNegative

def BList.hasNegative : BList → Bool
  | .nil => false
  | .cons elem next => elem.hasNegative || next.hasNegative

def Dict.hasNegative : Dict → Bool
  | .nil => false
  | .cons _ val next => val.hasNegative || next.hasNegative

end

/-! ## Negative integers -/

mutual

theorem Object.Same.hasNegative_eq {first second : Object} :
    Object.Same first second → first.hasNegative = second.hasNegative
  | .string _ => rfl
  | .integer _ => rfl
  | .list items => items.hasNegative_eq
  | .dict entries => entries.hasNegative_eq

theorem BList.Same.hasNegative_eq {first second : BList} :
    BList.Same first second → first.hasNegative = second.hasNegative
  | .nil => rfl
  | .cons elem next => by
      rw [BList.hasNegative, BList.hasNegative, elem.hasNegative_eq, next.hasNegative_eq]

theorem Dict.Same.hasNegative_eq {first second : Dict} :
    Dict.Same first second → first.hasNegative = second.hasNegative
  | .nil => rfl
  | .cons key val next => by
      rw [Dict.hasNegative, Dict.hasNegative, val.hasNegative_eq, next.hasNegative_eq]
  | .swap key other val otherVal next => by
      simp only [Dict.hasNegative]
      rw [Bool.or_left_comm]
  | .trans one two => one.hasNegative_eq.trans two.hasNegative_eq

end

theorem hasNegative_of_readInt {erange : Bool} {magnitude : ℕ} {object : Object}
    (read : readInt erange magnitude = some object) : object.hasNegative = false := by
  unfold readInt at read
  split_ifs at read with fine
  cases read
  have toInt_eq : (BitVec.ofNat 64 magnitude).toInt = magnitude := by
    rw [BitVec.toInt_ofNat', Int.bmod_eq_of_le (by omega) (by omega)]
  rw [Object.hasNegative, toInt_eq]
  exact decide_eq_false (by omega)

mutual

/-- No negative integer is read. -/
theorem Object.hasNegative_readBack {erange inList : Bool} : ∀ (object : Object) {read : Object},
    object.readBack erange inList = some read → read.hasNegative = false
  | .string bytes, _, back => by
      rw [Object.readBack] at back
      split_ifs at back
      cases back
      rfl
  | .integer number, _, back => by
      rw [Object.readBack] at back
      split_ifs at back
      exact hasNegative_of_readInt back
  | .list list, _, back => by
      rw [Object.readBack] at back
      rcases Option.map_eq_some_iff.mp back with ⟨items, itemsBack, rfl⟩
      exact BList.hasNegative_readBack list itemsBack
  | .dict dictionary, _, back => by
      rw [Object.readBack] at back
      rcases Option.map_eq_some_iff.mp back with ⟨entries, entriesBack, rfl⟩
      exact Dict.hasNegative_readBack dictionary entriesBack

theorem BList.hasNegative_readBack {erange : Bool} : ∀ (list : BList) {read : BList},
    list.readBack erange = some read → read.hasNegative = false
  | .nil, _, back => by
      cases back
      rfl
  | .cons elem next, _, back => by
      rw [BList.readBack] at back
      rcases Option.bind_eq_some_iff.mp back with ⟨first, firstBack, back⟩
      rcases Option.map_eq_some_iff.mp back with ⟨others, othersBack, rfl⟩
      rw [BList.hasNegative, Object.hasNegative_readBack elem firstBack,
        BList.hasNegative_readBack next othersBack]
      rfl

theorem Dict.hasNegative_readBack {erange : Bool} : ∀ (dictionary : Dict) {read : Dict},
    dictionary.readBack erange = some read → read.hasNegative = false
  | .nil, _, back => by
      cases back
      rfl
  | .cons key val next, _, back => by
      rw [Dict.readBack] at back
      split_ifs at back
      rcases Option.bind_eq_some_iff.mp back with ⟨first, firstBack, back⟩
      rcases Option.map_eq_some_iff.mp back with ⟨others, othersBack, rfl⟩
      rw [Dict.hasNegative, Object.hasNegative_readBack val firstBack,
        Dict.hasNegative_readBack next othersBack]
      rfl

end

/-! ## What survives -/

theorem PAD_of_le {padSpaces : ℕ} (few : padSpaces ≤ 32) :
    PAD padSpaces 1 0 = some (List.replicate padSpaces SPACE) := by
  rw [PAD, if_neg (by omega)]
  rfl

mutual

theorem Object.written_of_survives {erange : Bool} : ∀ (object : Object) {pad : ℕ},
    object.survives erange pad = true →
      ∃ text, serializeGenericWithPadding 1 pad object = some text
  | .string _, _, _ => ⟨_, rfl⟩
  | .integer _, _, _ => ⟨_, rfl⟩
  | .list list, _, survives => by
      rw [Object.survives, Bool.and_eq_true, decide_eq_true_eq] at survives
      rcases BList.written_of_survives list survives.2 with ⟨items, itemsWritten⟩
      rw [serializeGenericWithPadding, itemsWritten, PAD_of_le survives.1]
      exact ⟨_, rfl⟩
  | .dict dictionary, _, survives => by
      rw [Object.survives, Bool.and_eq_true, decide_eq_true_eq] at survives
      rcases Dict.written_of_survives dictionary survives.2 with ⟨entries, entriesWritten⟩
      rw [serializeGenericWithPadding, entriesWritten, PAD_of_le survives.1]
      exact ⟨_, rfl⟩

theorem BList.written_of_survives {erange : Bool} : ∀ (list : BList) {pad : ℕ},
    list.survives erange pad = true → ∃ text, serializeItems 1 pad list = some text
  | .nil, _, _ => ⟨_, rfl⟩
  | .cons elem next, _, survives => by
      simp only [BList.survives, Bool.and_eq_true, decide_eq_true_eq] at survives
      rcases Object.written_of_survives elem survives.2.1 with ⟨text, textWritten⟩
      rcases BList.written_of_survives next survives.2.2 with ⟨rest, restWritten⟩
      rw [JsonBencSerializer.serializeItems, textWritten, restWritten, PAD_of_le survives.1]
      exact ⟨_, rfl⟩

theorem Dict.written_of_survives {erange : Bool} : ∀ (dictionary : Dict) {pad : ℕ},
    dictionary.survives erange pad = true → ∃ text, serializeEntries 1 pad dictionary = some text
  | .nil, _, _ => ⟨_, rfl⟩
  | .cons key val next, _, survives => by
      simp only [Dict.survives, Bool.and_eq_true, decide_eq_true_eq] at survives
      rcases Object.written_of_survives val survives.2.2.1 with ⟨text, textWritten⟩
      rcases Dict.written_of_survives next survives.2.2.2 with ⟨rest, restWritten⟩
      rw [JsonBencSerializer.serializeEntries, textWritten, restWritten, PAD_of_le survives.1]
      exact ⟨_, rfl⟩

end

/-- A number is read if it is not negative, and not the largest one behind `ERANGE`. -/
theorem readInt_natAbs {erange : Bool} {number : BitVec 64} (positive : 0 ≤ number.toInt) :
    readInt erange number.toInt.natAbs =
      if erange = true ∧ number = 0x7FFFFFFFFFFFFFFF then none else some (.integer number) := by
  have high := @BitVec.toInt_lt 64 number
  have largest : number = 0x7FFFFFFFFFFFFFFF ↔ number.toInt.natAbs = 2 ^ 63 - 1 := by
    rw [← BitVec.toInt_inj]
    change number.toInt = 2 ^ 63 - 1 ↔ _
    omega
  have same : BitVec.ofNat 64 number.toInt.natAbs = number := by
    rw [← BitVec.ofInt_natCast, Int.natAbs_of_nonneg positive, BitVec.ofInt_toInt]
  have range : number.toInt.natAbs < 2 ^ 63 := by omega
  simp only [readInt, same, ← largest, range, true_and, ite_not]

mutual

theorem Object.readBack_of_survives {erange inList : Bool} : ∀ (object : Object) {pad : ℕ},
    object.survives erange pad = true → object.readBack erange inList = some object
  | .string bytes, _, survives => if_pos survives
  | .integer number, _, survives => by
      simp only [Object.survives, Bool.and_eq_true, decide_eq_true_eq, Bool.not_eq_true',
        Bool.and_eq_false_iff, decide_eq_false_iff_not] at survives
      rw [Object.readBack, if_neg (fun both => absurd both.1 (by omega)),
        readInt_natAbs survives.1, if_neg]
      rintro ⟨old, largest⟩
      rcases survives.2 with fresh | smaller
      · rw [old] at fresh
        cases fresh
      · exact smaller largest
  | .list list, _, survives => by
      rw [Object.survives, Bool.and_eq_true] at survives
      rw [Object.readBack, BList.readBack_of_survives list survives.2]
      rfl
  | .dict dictionary, _, survives => by
      rw [Object.survives, Bool.and_eq_true] at survives
      rw [Object.readBack, Dict.readBack_of_survives dictionary survives.2]
      rfl

theorem BList.readBack_of_survives {erange : Bool} : ∀ (list : BList) {pad : ℕ},
    list.survives erange pad = true → list.readBack erange = some list
  | .nil, _, _ => rfl
  | .cons elem next, _, survives => by
      simp only [BList.survives, Bool.and_eq_true] at survives
      rw [BList.readBack, Object.readBack_of_survives elem survives.2.1,
        BList.readBack_of_survives next survives.2.2]
      rfl

theorem Dict.readBack_of_survives {erange : Bool} : ∀ (dictionary : Dict) {pad : ℕ},
    dictionary.survives erange pad = true → dictionary.readBack erange = some dictionary
  | .nil, _, _ => rfl
  | .cons key val next, _, survives => by
      simp only [Dict.survives, Bool.and_eq_true] at survives
      rw [Dict.readBack, if_pos survives.2.1, Object.readBack_of_survives val survives.2.2.1,
        Dict.readBack_of_survives next survives.2.2.2]
      rfl

end

mutual

/-- What was written and is read without negative integers survives. -/
theorem Object.survives_of_readBack {erange inList : Bool} : ∀ (object : Object)
    {fuel pad : ℕ} {text : BString} {read : Object},
    serializeGenericWithPadding fuel pad object = some text →
      object.readBack erange inList = some read → object.hasNegative = false →
      object.survives erange pad = true
  | .string bytes, _, _, _, _, _, back, _ => by
      rw [Object.readBack] at back
      split_ifs at back with plain
      exact plain
  | .integer number, _, _, _, _, _, back, positive => by
      rw [Object.hasNegative, decide_eq_false_iff_not] at positive
      rw [Object.readBack, if_neg (fun both => positive both.1),
        readInt_natAbs (by omega)] at back
      split_ifs at back with stale
      rw [Object.survives, Bool.and_eq_true]
      refine ⟨decide_eq_true (by omega), ?_⟩
      cases erange with
      | false => rfl
      | true => simpa using stale
  | .list list, _, _, _, _, written, back, positive => by
      rw [serializeGenericWithPadding] at written
      rcases Option.bind_eq_some_iff.mp written with ⟨items, itemsWritten, written⟩
      rcases Option.bind_eq_some_iff.mp written with ⟨spaces, spacesWritten, -⟩
      rcases Option.map_eq_some_iff.mp back with ⟨others, othersBack, -⟩
      rw [Object.survives, BList.survives_of_readBack list itemsWritten othersBack positive,
        Bool.and_true]
      exact decide_eq_true (PAD_eq_some spacesWritten).1
  | .dict dictionary, _, _, _, _, written, back, positive => by
      rw [serializeGenericWithPadding] at written
      rcases Option.bind_eq_some_iff.mp written with ⟨entries, entriesWritten, written⟩
      rcases Option.bind_eq_some_iff.mp written with ⟨spaces, spacesWritten, -⟩
      rcases Option.map_eq_some_iff.mp back with ⟨others, othersBack, -⟩
      rw [Object.survives, Dict.survives_of_readBack dictionary entriesWritten othersBack positive,
        Bool.and_true]
      exact decide_eq_true (PAD_eq_some spacesWritten).1

theorem BList.survives_of_readBack {erange : Bool} : ∀ (list : BList) {fuel pad : ℕ}
    {text : BString} {read : BList}, serializeItems fuel pad list = some text →
      list.readBack erange = some read → list.hasNegative = false →
      list.survives erange pad = true
  | .nil, _, _, _, _, _, _, _ => rfl
  | .cons elem next, _, _, _, _, written, back, positive => by
      rw [JsonBencSerializer.serializeItems] at written
      rcases Option.bind_eq_some_iff.mp written with ⟨spaces, spacesWritten, written⟩
      rcases Option.bind_eq_some_iff.mp written with ⟨text, textWritten, written⟩
      rcases Option.bind_eq_some_iff.mp written with ⟨rest, restWritten, -⟩
      rw [BList.readBack] at back
      rcases Option.bind_eq_some_iff.mp back with ⟨first, firstBack, back⟩
      rcases Option.map_eq_some_iff.mp back with ⟨others, othersBack, -⟩
      rw [BList.hasNegative, Bool.or_eq_false_iff] at positive
      rw [BList.survives, Object.survives_of_readBack elem textWritten firstBack positive.1,
        BList.survives_of_readBack next restWritten othersBack positive.2]
      exact Bool.and_eq_true_iff.mpr ⟨decide_eq_true (PAD_eq_some spacesWritten).1, rfl⟩

theorem Dict.survives_of_readBack {erange : Bool} : ∀ (dictionary : Dict) {fuel pad : ℕ}
    {text : BString} {read : Dict}, serializeEntries fuel pad dictionary = some text →
      dictionary.readBack erange = some read → dictionary.hasNegative = false →
      dictionary.survives erange pad = true
  | .nil, _, _, _, _, _, _, _ => rfl
  | .cons key val next, _, _, _, _, written, back, positive => by
      rw [JsonBencSerializer.serializeEntries] at written
      rcases Option.bind_eq_some_iff.mp written with ⟨spaces, spacesWritten, written⟩
      rcases Option.bind_eq_some_iff.mp written with ⟨text, textWritten, written⟩
      rcases Option.bind_eq_some_iff.mp written with ⟨rest, restWritten, -⟩
      rw [Dict.readBack] at back
      split_ifs at back with plain
      rcases Option.bind_eq_some_iff.mp back with ⟨first, firstBack, back⟩
      rcases Option.map_eq_some_iff.mp back with ⟨others, othersBack, -⟩
      rw [Dict.hasNegative, Bool.or_eq_false_iff] at positive
      rw [Dict.survives, Object.survives_of_readBack val textWritten firstBack positive.1,
        Dict.survives_of_readBack next restWritten othersBack positive.2, plain]
      exact Bool.and_eq_true_iff.mpr ⟨decide_eq_true (PAD_eq_some spacesWritten).1, rfl⟩

end

namespace JsonBencSerializer

open Fuel

/-- The dictionary is written, and the parser returns an equal tree. -/
def RoundTrips (erange : Bool) (behind : BitVec 8) (dictionary : Dict) : Prop :=
  ∃ padFuel text, serializeDictionary padFuel dictionary = some text ∧
    ∃ fuel output reader,
      parseDictionary erange fuel (newReader text behind) = .ok (output, reader) ∧
        dictionary.Same output

/-- What the parser comes to on the text of a dictionary -/
theorem parseDictionary_written {erange : Bool} {behind : BitVec 8} {dictionary : Dict}
    {padFuel : ℕ} {text : BString} (written : serializeDictionary padFuel dictionary = some text)
    (fits : dictionary.Fits) :
    Reads (fun fuel => parseDictionary erange fuel (newReader text behind))
      ((dictionary.readBack erange).map fun tree => (tree.mirrorOnto .nil, [behind])) := by
  rw [serializeDictionary, serializeGenericWithPadding] at written
  rcases Option.bind_eq_some_iff.mp written with ⟨entries, entriesWritten, written⟩
  rcases Option.bind_eq_some_iff.mp written with ⟨spaces, spacesWritten, written⟩
  cases written
  rcases PAD_eq_some spacesWritten with ⟨-, rfl⟩
  have loop := @dictionaryLoop_written erange dictionary _ _ _ entriesWritten fits (0 - 0) [behind]
    .nil NEWLINE
  have whole := @dictionaryLoop_skip erange NEWLINE 0 _ _ _ (by decide) (by decide) (by decide) loop
  have reader : (readUntil DICT_BEGIN (newReader ([DICT_BEGIN, NEWLINE] ++ (entries ++ NEWLINE ::
      (List.replicate (0 - 0) SPACE ++ [DICT_END]))) behind)).2 =
        NEWLINE :: (entries ++ NEWLINE :: (List.replicate (0 - 0) SPACE ++ DICT_END :: [behind])) := by
    simp [newReader, readUntil]
  unfold parseDictionary
  rw [reader]
  exact whole

/-- What the parser returned was read back. -/
theorem readBack_of_parse {erange : Bool} {behind : BitVec 8} {dictionary output : Dict}
    {padFuel fuel : ℕ} {text : BString} {reader : Reader}
    (written : serializeDictionary padFuel dictionary = some text) (fits : dictionary.Fits)
    (parsed : parseDictionary erange fuel (newReader text behind) = .ok (output, reader)) :
    ∃ tree, dictionary.readBack erange = some tree ∧ tree.mirrorOnto .nil = output := by
  have stable : Stable (fun fuel => parseDictionary erange fuel (newReader text behind))
      (.error .outOfFuel) := fun fuel => dictionaryLoop_succ fuel _ _ _
  have settles := @Stable.settles _ _ _ stable fuel (by
    rw [parsed]
    exact fun impossible => by cases impossible)
  have reads := (settles.map Except.toOption).unique
    (@parseDictionary_written erange behind dictionary padFuel text written fits)
  rw [parsed] at reads
  rcases Option.map_eq_some_iff.mp reads.symm with ⟨tree, back, equal⟩
  cases equal
  exact ⟨tree, back, rfl⟩

/-- A dictionary is read back if and only if it survives. -/
theorem roundTrips_iff_survives {erange : Bool} {behind : BitVec 8} {dictionary : Dict}
    (fits : dictionary.Fits) :
    RoundTrips erange behind dictionary ↔ dictionary.survives erange 2 = true := by
  constructor
  · rintro ⟨padFuel, text, written, fuel, output, reader, parsed, same⟩
    rcases readBack_of_parse written fits parsed with ⟨tree, back, rfl⟩
    have positive : dictionary.hasNegative = false := by
      rw [same.hasNegative_eq, ← tree.same_mirror.hasNegative_eq]
      exact Dict.hasNegative_readBack dictionary back
    rw [serializeDictionary, serializeGenericWithPadding] at written
    rcases Option.bind_eq_some_iff.mp written with ⟨entries, entriesWritten, -⟩
    exact Dict.survives_of_readBack dictionary entriesWritten back positive
  · intro survives
    rcases Dict.written_of_survives dictionary survives with ⟨entries, entriesWritten⟩
    have written : ∃ text, serializeDictionary 1 dictionary = some text := by
      rw [serializeDictionary, serializeGenericWithPadding, entriesWritten, PAD_of_le (by omega)]
      exact ⟨_, rfl⟩
    rcases written with ⟨text, written⟩
    rcases @parseDictionary_written erange behind dictionary 1 text written fits with
      ⟨enough, reads⟩
    rw [Dict.readBack_of_survives dictionary survives] at reads
    have parsed := eq_ok_of_toOption (reads enough le_rfl)
    exact ⟨1, text, written, enough, _, _, parsed, dictionary.same_mirror⟩

/-- A list in a dictionary -/
theorem roundTrips_of_survives :
    RoundTrips true 0 (.cons [0x61] (.list (.cons (.integer 5) .nil)) .nil) :=
  (roundTrips_iff_survives (by simp [Dict.Fits, Object.Fits, BList.Fits])).mpr (by decide)

/-- A negative integer is written and cannot be read. -/
theorem negative_refused : ¬RoundTrips false 0 (.cons [0x61] (.integer (-1)) .nil) := by
  rintro ⟨padFuel, text, written, fuel, output, reader, parsed, -⟩
  rcases readBack_of_parse written (by simp [Dict.Fits, Object.Fits]) parsed with ⟨tree, back, -⟩
  rw [Dict.readBack, if_pos (by decide), Object.readBack, if_pos (by decide)] at back
  cases back

end JsonBencSerializer

end Cjdns
