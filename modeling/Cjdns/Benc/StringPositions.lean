import Cjdns.Benc.BencodeRoundTrip
import Cjdns.Benc.DictLaws
import Cjdns.Benc.StringMemory

/-!
# Where the strings of a dictionary are

The content of a string that was parsed is in the input still. For the entries of a dictionary that
was serialized, it is where the serializer wrote it.
-/

namespace Cjdns

open Decimal StandardBencSerializer

namespace CDict

/-- `lookupObject`; `String_equals` compares the keys in memory. -/
def lookup (key : BString) : CDict → Option CObject
  | .nil => none
  | .cons other val next => if key = other.bytes.take other.len then some val else lookup key next

/-- `Dict_getString` -/
def getString (key : BString) (dictionary : CDict) : Option CString :=
  match dictionary.lookup key with
  | some (.string string) => some string
  | _ => none

/-- `Dict_getInt` -/
def getInt (key : BString) (dictionary : CDict) : Option (BitVec 64) :=
  match dictionary.lookup key with
  | some (.integer number) => some number
  | _ => none

theorem getString_eq_some_iff {key : BString} {dictionary : CDict} {string : CString} :
    dictionary.getString key = some string ↔ dictionary.lookup key = some (.string string) := by
  unfold getString
  split
  · rename_i other same
    rw [same]
    simp
  · rename_i other
    constructor
    · intro impossible
      cases impossible
    · intro same
      exact absurd same (other string)

/-- A string that is found is one of those of the dictionary. -/
theorem mem_strings_of_lookup {key : BString} {string : CString} : ∀ {dictionary : CDict},
    dictionary.lookup key = some (.string string) → string ∈ dictionary.strings
  | .nil, found => by cases found
  | .cons other val next, found => by
      rw [lookup] at found
      rw [strings, List.mem_cons, List.mem_append]
      split_ifs at found with same
      · rw [Option.some.inj found]
        simp [CObject.strings]
      · exact .inr (.inr (mem_strings_of_lookup found))

end CDict

namespace InMemory

/-- A string that was read has its content in memory. -/
theorem IsRead.take_bytes {string : CString} (read : IsRead string) :
    string.bytes.take string.len = string.content := by
  by_cases empty : string.len = 0
  · rw [CString.content, empty, List.take_zero, List.take_zero]
  · exact (read.terminated_iff.mpr empty).2

/-- A lookup in memory finds what there is without it. -/
theorem lookup_erase {key : BString} : ∀ {dictionary : CDict},
    (∀ string ∈ dictionary.strings, IsRead string) →
      dictionary.erase.lookup key = (dictionary.lookup key).map CObject.erase
  | .nil, _ => rfl
  | .cons other val next, read => by
      rw [CDict.erase, Dict.lookup, CDict.lookup,
        (read other (by simp [CDict.strings])).take_bytes]
      by_cases same : key = other.content
      · rw [if_pos same, if_pos same, Option.map_some]
      · rw [if_neg same, if_neg same]
        apply lookup_erase
        intro string member
        exact read string (by simp [CDict.strings, member])

/-! ## One entry -/

variable {malloc : Malloc} {erange : Bool} {reader behind : Reader}

/-- What a string without its memory is read from -/
theorem content_of_parseString {string : CString}
    (parsed : parseString malloc reader = .ok (string, behind)) :
    StandardBencSerializer.parseString reader = .ok (string.content, behind) := by
  rw [← erase_parseString malloc, parsed]
  rfl

/-- The reader goes on behind the content. -/
theorem source_of_parseString {string : CString}
    (parsed : parseString malloc reader = .ok (string, behind)) :
    string.source = string.content ++ behind := by
  rcases parseString_cases parsed with ⟨empty, -, rest⟩ | ⟨-, -, -, rest⟩
  · rw [CString.content, empty, List.take_zero, List.nil_append, rest]
  · rw [CString.content, rest, List.take_append_drop]

/-- A value that is a string is read as one. -/
theorem string_of_parseGeneric {fuel : ℕ} {string : CString}
    (parsed : parseGeneric malloc erange fuel reader = .ok (.string string, behind)) :
    parseString malloc reader = .ok (string, behind) := by
  rcases fuel with _ | fuel
  · cases parsed
  rcases reader with _ | ⟨first, rest⟩
  · cases parsed
  rw [parseGeneric] at parsed
  split_ifs at parsed with digit integer list dict
  · rcases eq_ok_of_map parsed with ⟨read, whole, same⟩
    cases same
    exact whole
  · rcases eq_ok_of_map parsed with ⟨number, -, impossible⟩
    cases impossible
  · rcases eq_ok_of_readByte parsed with ⟨items, -, impossible⟩
    cases impossible
  · rcases eq_ok_of_readByte parsed with ⟨entries, -, impossible⟩
    cases impossible

/-- How an entry was read -/
structure ReadsEntry (malloc : Malloc) (reader : Reader) (key : CString) (val : CObject)
    (rest : Reader) : Prop where
  words : ∃ keyWord valueWord tree, IsString false keyWord key.content ∧
    IsValue false valueWord tree ∧ val.erase = tree.mirror ∧
    reader = keyWord ++ (valueWord ++ rest)
  string : ∀ string, val = .string string → ∃ front second, reader = front ++ second ∧
    parseString malloc second = .ok (string, rest)

/-- `dictionaryLoop` is at the end, or it reads an entry. -/
theorem dictionaryLoop_cases {fuel : ℕ} {last entries : CDict} (small : reader.length < 2 ^ 64)
    (parsed : dictionaryLoop malloc erange fuel last reader = .ok (entries, behind)) :
    (entries = last ∧ reader = E :: behind) ∨ ∃ smaller key val rest, fuel = smaller + 1 ∧
      ReadsEntry malloc reader key val rest ∧
      dictionaryLoop malloc erange smaller (.cons key val last) rest = .ok (entries, behind) := by
  rcases dictionaryLoop_eq_ok parsed with
    ends | ⟨smaller, key, second, val, third, fuel_eq, front, value, loop⟩
  · exact .inl ends
  rcases (parseString_eq_ok small).mp (content_of_parseString front) with
    ⟨keyWord, keyIs, whole, -⟩
  have shorter : second.length < 2 ^ 64 := by
    rw [whole, List.length_append] at small
    omega
  have plain := @erase_parseGeneric malloc erange smaller second
  rw [value] at plain
  rcases readsValue_of_parse smaller shorter plain.symm with
    ⟨valueWord, tree, valueIs, same, -, split⟩
  refine .inr ⟨smaller, key, val, third, fuel_eq, ⟨⟨keyWord, valueWord, tree, keyIs, valueIs,
    same, by rw [whole, split]⟩, fun string isString => ?_⟩, loop⟩
  subst isString
  exact ⟨keyWord, second, whole, string_of_parseGeneric value⟩

/-! ## Any dictionary -/

theorem ReadsEntry.length_lt {key : CString} {val : CObject} {rest : Reader}
    (reads : ReadsEntry malloc reader key val rest) (small : reader.length < 2 ^ 64) :
    rest.length < 2 ^ 64 := by
  rcases reads.words with ⟨keyWord, valueWord, tree, -, -, -, whole⟩
  rw [whole, List.length_append, List.length_append] at small
  omega

/-- A string that is found was there before, or it was read from somewhere in the input. -/
theorem string_of_dictionaryLoop {key : BString} {string : CString} : ∀ (fuel : ℕ)
    {last entries : CDict} {reader : Reader}, reader.length < 2 ^ 64 →
      dictionaryLoop malloc erange fuel last reader = .ok (entries, behind) →
      entries.lookup key = some (.string string) →
      last.lookup key = some (.string string) ∨ ∃ front second rest,
        reader = front ++ second ∧ parseString malloc second = .ok (string, rest) := by
  intro fuel
  induction fuel with
  | zero =>
      intro last entries reader small parsed found
      cases parsed
  | succ fuel ih =>
      intro last entries reader small parsed found
      rcases dictionaryLoop_cases small parsed with
        ⟨rfl, -⟩ | ⟨smaller, other, val, rest, fuel_eq, reads, loop⟩
      · exact .inl found
      cases fuel_eq
      rcases ih (reads.length_lt small) loop found with here | ⟨front, second, after, whole, read⟩
      · rw [CDict.lookup] at here
        split_ifs at here with same
        · cases here
          rcases reads.string string rfl with ⟨front, second, whole, read⟩
          exact .inr ⟨front, second, rest, whole, read⟩
        · exact .inl here
      · rcases reads.words with ⟨keyWord, valueWord, tree, -, -, -, start⟩
        refine .inr ⟨keyWord ++ (valueWord ++ front), second, after, ?_, read⟩
        rw [start, whole, List.append_assoc, List.append_assoc]

/-- A string that is found was read from somewhere in the input. -/
theorem string_of_parseDictionary {entries : CDict} {key : BString} {string : CString}
    (small : reader.length < 2 ^ 64)
    (parsed : parseDictionary malloc erange reader = .ok (entries, behind))
    (found : entries.getString key = some string) :
    ∃ front second rest, reader = front ++ second ∧
      parseString malloc second = .ok (string, rest) := by
  rw [CDict.getString_eq_some_iff] at found
  unfold parseDictionary at parsed
  cases byte : readByte reader with
  | error failure =>
      rw [byte] at parsed
      cases parsed
  | ok pair =>
      rcases pair with ⟨first, behindFirst⟩
      rcases readByte_eq_ok.mp byte with ⟨rfl, -⟩
      simp only [byte] at parsed
      split_ifs at parsed with dict
      rw [List.length_cons] at small
      rcases string_of_dictionaryLoop _ (by omega) parsed found with
        impossible | ⟨front, second, rest, whole, read⟩
      · cases impossible
      · exact ⟨first :: front, second, rest, by rw [whole, List.cons_append], read⟩

/-- A string that is found is within the input, with something behind it. -/
theorem source_of_parseDictionary {entries : CDict} {key : BString} {string : CString}
    (small : reader.length < 2 ^ 64)
    (parsed : parseDictionary malloc erange reader = .ok (entries, behind))
    (found : entries.getString key = some string) :
    ∃ front rest, reader = front ++ string.source ∧ string.source = string.content ++ rest ∧
      rest ≠ [] := by
  rcases string_of_parseDictionary small parsed found with ⟨front, second, rest, rfl, read⟩
  have source := source_of_parseString read
  rw [List.length_append] at small
  rcases (parseString_eq_ok (by omega)).mp (content_of_parseString read) with
    ⟨word, ⟨-, -, -, -⟩, rfl, some⟩
  rename_i digits
  exact ⟨front ++ (digits ++ [COLON]), rest, by simp [source], source, some⟩

/-! ## Dictionaries that were serialized -/

/-- Two strings in front of a reader are the same. -/
theorem string_unique {first second one two firstRest secondRest : BString}
    (firstIs : IsString false first one) (secondIs : IsString false second two)
    (same : first ++ firstRest = second ++ secondRest)
    (small : (first ++ firstRest).length < 2 ^ 64) (firstSome : firstRest ≠ [])
    (secondSome : secondRest ≠ []) : one = two ∧ firstRest = secondRest := by
  have parseFirst := (parseString_eq_ok small).mpr ⟨first, firstIs, rfl, firstSome⟩
  have parseSecond := (parseString_eq_ok small).mpr ⟨second, secondIs, same, secondSome⟩
  rw [parseFirst, Except.ok.injEq, Prod.mk.injEq] at parseSecond
  exact parseSecond

/-- Two values in front of a reader are the same. -/
theorem value_unique {first second firstRest secondRest : BString} {one two : Object}
    (firstIs : IsValue false first one) (secondIs : IsValue false second two)
    (same : first ++ firstRest = second ++ secondRest)
    (small : (first ++ firstRest).length < 2 ^ 64) (firstSome : firstRest ≠ [])
    (secondSome : secondRest ≠ []) : one.mirror = two.mirror ∧ firstRest = secondRest := by
  have sizes := congrArg List.length same
  rw [List.length_append, List.length_append] at sizes
  rw [List.length_append] at small
  have parseFirst := @parse_of_isValue false _ _ firstIs (2 * (first.length + second.length))
    firstRest (by omega) firstSome small (fun impossible => by cases impossible)
  have parseSecond := @parse_of_isValue false _ _ secondIs (2 * (first.length + second.length))
    secondRest (by omega) secondSome (by omega) (fun impossible => by cases impossible)
  rw [same, parseSecond, Except.ok.injEq, Prod.mk.injEq] at parseFirst
  exact ⟨parseFirst.1.symm, parseFirst.2.symm⟩

/-- An entry that was serialized is read back. -/
theorem dictionaryLoop_serialize {fuel : ℕ} {last entries : CDict} {key : BString} {val : Object}
    {next : Dict} {rest : Reader}
    (small : (serializeEntries (.cons key val next) ++ rest).length < 2 ^ 63)
    (parsed : dictionaryLoop malloc erange fuel last
      (serializeEntries (.cons key val next) ++ rest) = .ok (entries, behind)) :
    ∃ smaller keyRead valRead, keyRead.content = key ∧ valRead.erase = val.mirror ∧
      (∀ string, valRead = .string string →
        string.source = string.content ++ (serializeEntries next ++ rest)) ∧
      dictionaryLoop malloc erange smaller (.cons keyRead valRead last)
        (serializeEntries next ++ rest) = .ok (entries, behind) := by
  have sizes := small
  simp only [serializeEntries, serializeString, List.length_append, List.length_cons] at sizes
  have keyIs : IsString false (serializeString key) key :=
    (isString_serialize (by omega)).lenient
  have valIs : IsValue false (serializeGeneric val) val :=
    (isValue_serialize val (by omega)).lenient
  have nextSome : serializeEntries next ++ rest ≠ [] := by
    have some := entries_ne_nil (isEntries_serialize next (by omega))
    simp [some]
  have whole : serializeEntries (.cons key val next) ++ rest =
      serializeString key ++ (serializeGeneric val ++ (serializeEntries next ++ rest)) := by
    simp [serializeEntries]
  rw [whole] at parsed small
  rcases string_begins keyIs with ⟨first, others, begins, apart, -⟩
  rcases dictionaryLoop_cases (by omega) parsed with
    ⟨-, impossible⟩ | ⟨smaller, keyRead, valRead, third, -, reads, loop⟩
  · rw [begins, List.cons_append, List.cons.injEq] at impossible
    exact absurd impossible.1 apart
  rcases reads.words with ⟨keyWord, valueWord, tree, keyWordIs, valueIs, same, start⟩
  have thirdSome : third ≠ [] := by
    rintro rfl
    rcases smaller with _ | smaller <;> cases loop
  rcases value_begins valueIs with ⟨valueFirst, valueOthers, valueBegins, -⟩
  rcases value_begins valIs with ⟨valFirst, valOthers, valBegins, -⟩
  rcases string_unique keyIs keyWordIs start (by omega) (by simp [valBegins])
    (by simp [valueBegins]) with ⟨keySame, secondSame⟩
  rcases value_unique valIs valueIs secondSame
    (by rw [List.length_append] at small; omega) nextSome thirdSome with ⟨valSame, thirdSame⟩
  subst thirdSame
  refine ⟨smaller, keyRead, valRead, keySame.symm, by rw [same, valSame], ?_, loop⟩
  intro string isString
  rcases reads.string string isString with ⟨-, second, -, read⟩
  exact source_of_parseString read

/-- Nothing is read behind the last entry. -/
theorem dictionaryLoop_serialize_nil {fuel : ℕ} {last entries : CDict} {rest : Reader}
    (parsed : dictionaryLoop malloc erange fuel last (serializeEntries .nil ++ rest) =
      .ok (entries, behind)) : entries = last := by
  rcases fuel with _ | fuel
  · cases parsed
  · cases parsed
    rfl

/-- The strings that are there stay. -/
theorem strings_of_dictionaryLoop {string : CString} : ∀ (fuel : ℕ) {last entries : CDict}
    {reader : Reader}, reader.length < 2 ^ 64 →
      dictionaryLoop malloc erange fuel last reader = .ok (entries, behind) →
      string ∈ last.strings → string ∈ entries.strings := by
  intro fuel
  induction fuel with
  | zero =>
      intro last entries reader small parsed
      cases parsed
  | succ fuel ih =>
      intro last entries reader small parsed member
      rcases dictionaryLoop_cases small parsed with
        ⟨rfl, -⟩ | ⟨smaller, other, val, rest, fuel_eq, reads, loop⟩
      · exact member
      cases fuel_eq
      exact ih (reads.length_lt small) loop (by simp [CDict.strings, member])

/-- Keys that do not occur are looked up in what was there before. -/
theorem lookup_of_serialize_of_notMem {key : BString} {rest : Reader} : ∀ (dictionary : Dict)
    {fuel : ℕ} {last entries : CDict}, key ∉ dictionary.keys →
      (serializeEntries dictionary ++ rest).length < 2 ^ 63 →
      dictionaryLoop malloc erange fuel last (serializeEntries dictionary ++ rest) =
        .ok (entries, behind) →
      (∀ string ∈ entries.strings, IsRead string) → entries.lookup key = last.lookup key
  | .nil, _, _, _, _, _, parsed, _ => by
      rw [dictionaryLoop_serialize_nil parsed]
  | .cons other val next, fuel, last, entries, apart, small, parsed, read => by
      rcases dictionaryLoop_serialize small parsed with
        ⟨smaller, keyRead, valRead, keySame, -, -, loop⟩
      rw [Dict.keys, List.mem_cons, not_or] at apart
      have shorter : (serializeEntries next ++ rest).length < 2 ^ 63 := by
        simp only [serializeEntries, List.length_append] at small ⊢
        omega
      have keyIsRead : IsRead keyRead := read keyRead
        (strings_of_dictionaryLoop smaller (by omega) loop (by simp [CDict.strings]))
      rw [lookup_of_serialize_of_notMem next apart.2 shorter loop read, CDict.lookup,
        keyIsRead.take_bytes, keySame, if_neg apart.1]

/-- The last string with a key is found where it was written. -/
theorem lookup_of_serialize {key content : BString} {back : Dict} {rest : Reader} :
    ∀ (front : Dict) {fuel : ℕ} {last entries : CDict}, key ∉ back.keys →
      (serializeEntries (front.append (.cons key (.string content) back)) ++ rest).length < 2 ^ 63 →
      dictionaryLoop malloc erange fuel last
        (serializeEntries (front.append (.cons key (.string content) back)) ++ rest) =
          .ok (entries, behind) →
      (∀ string ∈ entries.strings, IsRead string) →
      ∃ string, entries.lookup key = some (.string string) ∧ string.content = content ∧
        string.source = content ++ (serializeEntries back ++ rest)
  | .nil, fuel, last, entries, apart, small, parsed, read => by
      rw [Dict.append] at small parsed
      rcases dictionaryLoop_serialize small parsed with
        ⟨smaller, keyRead, valRead, keySame, valSame, source, loop⟩
      have shorter : (serializeEntries back ++ rest).length < 2 ^ 63 := by
        simp only [serializeEntries, List.length_append] at small ⊢
        omega
      have keyIsRead : IsRead keyRead := read keyRead
        (strings_of_dictionaryLoop smaller (by omega) loop (by simp [CDict.strings]))
      have found := lookup_of_serialize_of_notMem back apart shorter loop read
      rw [CDict.lookup, keyIsRead.take_bytes, keySame, if_pos rfl] at found
      cases valRead with
      | string string =>
          have same : string.content = content := by
            rw [CObject.erase, Object.mirror, Object.string.injEq] at valSame
            exact valSame
          exact ⟨string, found, same, by rw [source string rfl, same]⟩
      | integer number => cases valSame
      | list list => cases valSame
      | dict dictionary => cases valSame
  | .cons other val next, fuel, last, entries, apart, small, parsed, read => by
      rw [Dict.append] at small parsed
      rcases dictionaryLoop_serialize small parsed with ⟨smaller, keyRead, valRead, -, -, -, loop⟩
      apply lookup_of_serialize next apart _ loop read
      simp only [serializeEntries, List.length_append] at small ⊢
      omega

/-- The last string with a key is found where it was written. -/
theorem getString_of_serializeDictionary {key content : BString} {front back : Dict}
    {entries : CDict} {rest : Reader} (apart : key ∉ back.keys)
    (small : (serializeDictionary (front.append (.cons key (.string content) back)) ++
      rest).length < 2 ^ 63)
    (parsed : parseDictionary malloc erange
      (serializeDictionary (front.append (.cons key (.string content) back)) ++ rest) =
        .ok (entries, behind)) :
    ∃ string, entries.getString key = some string ∧ string.content = content ∧
      string.source = content ++ (serializeEntries back ++ rest) := by
  have read := isRead_of_parseDictionary parsed
  rw [serializeDictionary, List.cons_append] at parsed small
  rw [List.length_cons] at small
  have some := entries_ne_nil (isEntries_serialize (front.append (.cons key (.string content) back))
    (by rw [List.length_append] at small; omega))
  rw [parseDictionary, readByte_cons (by simp [some])] at parsed
  simp only [if_true] at parsed
  rcases lookup_of_serialize front apart (by omega) parsed read with ⟨string, found, same⟩
  exact ⟨string, CDict.getString_eq_some_iff.mpr found, same⟩

end InMemory

end Cjdns
