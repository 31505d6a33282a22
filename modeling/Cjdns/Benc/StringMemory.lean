import Cjdns.Benc.BencodeParser

/-!
# The strings of a parsed dictionary in memory

`parseString` writes the terminator behind the block, and then has the content read into it. A
read of the length 0 gives the next byte, which then is where the terminator was. The parser here
keeps the blocks; without them, it is the one that is there already (`erase_parseDictionary`).
-/

namespace Cjdns

open Decimal StandardBencSerializer

/-- What is in a block that the allocator gives, for the reader at which it is asked for one -/
structure Malloc where
  block : Reader → ℕ → BString
  length_block : ∀ reader size, (block reader size).length = size

/-- `String`, with where its content is in the input -/
structure CString where
  bytes : BString
  len : ℕ
  source : Reader

namespace CString

/-- The input bytes that are the content -/
def content (string : CString) : BString :=
  string.source.take string.len

/-- The bytes are the content with a terminator behind it. -/
def IsTerminated (string : CString) : Prop :=
  string.bytes[string.len]? = some 0 ∧ string.bytes.take string.len = string.content

end CString

mutual

/-- `Object`, with its strings in memory -/
inductive CObject where
  | string (string : CString)
  | integer (number : BitVec 64)
  | list (list : CList)
  | dict (dictionary : CDict)

inductive CList where
  | nil
  | cons (elem : CObject) (next : CList)

inductive CDict where
  | nil
  | cons (key : CString) (val : CObject) (next : CDict)

end

mutual

/-- The object without the memory -/
def CObject.erase : CObject → Object
  | .string string => .string string.content
  | .integer number => .integer number
  | .list list => .list list.erase
  | .dict dictionary => .dict dictionary.erase

def CList.erase : CList → BList
  | .nil => .nil
  | .cons elem next => .cons elem.erase next.erase

def CDict.erase : CDict → Dict
  | .nil => .nil
  | .cons key val next => .cons key.content val.erase next.erase

end

mutual

/-- The keys and values at any depth that are strings -/
def CObject.strings : CObject → List CString
  | .string string => [string]
  | .integer _ => []
  | .list list => list.strings
  | .dict dictionary => dictionary.strings

def CList.strings : CList → List CString
  | .nil => []
  | .cons elem next => elem.strings ++ next.strings

def CDict.strings : CDict → List CString
  | .nil => []
  | .cons key val next => key :: (val.strings ++ next.strings)

end

mutual

/-- The object contains an empty string, which may be a key. -/
def Object.hasEmpty : Object → Bool
  | .string bytes => bytes.isEmpty
  | .integer _ => false
  | .list list => list.hasEmpty
  | .dict dictionary => dictionary.hasEmpty

def BList.hasEmpty : BList → Bool
  | .nil => false
  | .cons elem next => elem.hasEmpty || next.hasEmpty

def Dict.hasEmpty : Dict → Bool
  | .nil => false
  | .cons key val next => key.isEmpty || (val.hasEmpty || next.hasEmpty)

end

mutual

theorem Object.Same.hasEmpty_eq {first second : Object} :
    Object.Same first second → first.hasEmpty = second.hasEmpty
  | .string _ => rfl
  | .integer _ => rfl
  | .list items => items.hasEmpty_eq
  | .dict entries => entries.hasEmpty_eq

theorem BList.Same.hasEmpty_eq {first second : BList} :
    BList.Same first second → first.hasEmpty = second.hasEmpty
  | .nil => rfl
  | .cons elem next => by
      rw [BList.hasEmpty, BList.hasEmpty, elem.hasEmpty_eq, next.hasEmpty_eq]

theorem Dict.Same.hasEmpty_eq {first second : Dict} :
    Dict.Same first second → first.hasEmpty = second.hasEmpty
  | .nil => rfl
  | .cons key val next => by
      rw [Dict.hasEmpty, Dict.hasEmpty, val.hasEmpty_eq, next.hasEmpty_eq]
  | .swap key other val otherVal next => by
      simp only [Dict.hasEmpty]
      ac_rfl
  | .trans one two => one.hasEmpty_eq.trans two.hasEmpty_eq

end

mutual

/-- The empty strings are those in memory without content. -/
theorem CObject.hasEmpty_erase : ∀ object : CObject,
    object.erase.hasEmpty = object.strings.any fun string => string.content.isEmpty
  | .string _ => (Bool.or_false _).symm
  | .integer _ => rfl
  | .list list => CList.hasEmpty_erase list
  | .dict dictionary => CDict.hasEmpty_erase dictionary

theorem CList.hasEmpty_erase : ∀ list : CList,
    list.erase.hasEmpty = list.strings.any fun string => string.content.isEmpty
  | .nil => rfl
  | .cons elem next => by
      rw [CList.erase, BList.hasEmpty, CObject.hasEmpty_erase elem, CList.hasEmpty_erase next,
        CList.strings, List.any_append]

theorem CDict.hasEmpty_erase : ∀ dictionary : CDict,
    dictionary.erase.hasEmpty = dictionary.strings.any fun string => string.content.isEmpty
  | .nil => rfl
  | .cons key val next => by
      rw [CDict.erase, Dict.hasEmpty, CObject.hasEmpty_erase val, CDict.hasEmpty_erase next,
        CDict.strings, List.any_cons, List.any_append]

end

namespace InMemory

/-- `read` into a block -/
def readInto (readInto : BString) (length : ℕ) (reader : Reader) : Option (BString × Reader) :=
  if length < reader.length then
    -- The length 0 is for looking at the next byte.
    if length = 0 then some (readInto.set 0 (reader.headD 0), reader)
    else some (reader.take length ++ readInto.drop length, reader.drop length)
  else none

/-- `parseString`; for the largest length, whose block is too small, the read fails. -/
def parseString (malloc : Malloc) (reader : Reader) : Parsed CString :=
  match sizeLoop 0 [] reader with
  | .error failure => .error failure
  | .ok (number, reader) =>
      let length := strtoul number
      let bytes := (malloc.block reader (length + 1)).set length 0
      match readInto bytes length reader with
      | none => .error .OUT_OF_CONTENT_TO_READ
      | some (bytes, behind) => .ok ({ bytes := bytes, len := length, source := reader }, behind)

mutual

/-- `parseGeneric` -/
def parseGeneric (malloc : Malloc) (erange : Bool) : ℕ → Reader → Parsed CObject
  | 0, _ => .error .outOfFuel
  | fuel + 1, reader =>
      match reader with
      | [] => .error .OUT_OF_CONTENT_TO_READ
      | firstChar :: _ =>
          if isDigit firstChar then
            (parseString malloc reader).map fun parsed => (.string parsed.1, parsed.2)
          else if firstChar = I then
            (parseint64_t erange reader).map fun parsed => (.integer parsed.1, parsed.2)
          else if firstChar = L then
            match readByte reader with
            | .error failure => .error failure
            | .ok (_, reader) =>
                (listLoop malloc erange fuel reader).map fun parsed => (.list parsed.1, parsed.2)
          else if firstChar = D then
            match readByte reader with
            | .error failure => .error failure
            | .ok (_, reader) =>
                (dictionaryLoop malloc erange fuel .nil reader).map
                  fun parsed => (.dict parsed.1, parsed.2)
          else .error .UNPARSABLE

/-- `parseList`, behind the `l` -/
def listLoop (malloc : Malloc) (erange : Bool) : ℕ → Reader → Parsed CList
  | 0, _ => .error .outOfFuel
  | fuel + 1, reader =>
      match reader with
      | [] => .error .OUT_OF_CONTENT_TO_READ
      | nextChar :: rest =>
          if nextChar = E then .ok (.nil, rest)
          else
            match parseGeneric malloc erange fuel reader with
            | .error failure => .error failure
            | .ok (element, reader) =>
                (listLoop malloc erange fuel reader).map
                  fun parsed => (.cons element parsed.1, parsed.2)

/-- `parseDictionary`, behind the `d`, with the entries so far, the last one first -/
def dictionaryLoop (malloc : Malloc) (erange : Bool) : ℕ → CDict → Reader → Parsed CDict
  | 0, _, _ => .error .outOfFuel
  | fuel + 1, lastEntryPointer, reader =>
      match reader with
      | [] => .error .OUT_OF_CONTENT_TO_READ
      | nextChar :: rest =>
          if nextChar = E then .ok (lastEntryPointer, rest)
          else
            match parseString malloc reader with
            | .error failure => .error failure
            | .ok (key, reader) =>
                match parseGeneric malloc erange fuel reader with
                | .error failure => .error failure
                | .ok (value, reader) =>
                    dictionaryLoop malloc erange fuel (.cons key value lastEntryPointer) reader

end

/-- `parseDictionary` -/
def parseDictionary (malloc : Malloc) (erange : Bool) (reader : Reader) : Parsed CDict :=
  match readByte reader with
  | .error failure => .error failure
  | .ok (nextChar, rest) =>
      if nextChar = D then dictionaryLoop malloc erange (2 * reader.length) .nil rest
      else .error .UNPARSABLE

/-! ## The parser without the memory -/

/-- The content is read whatever there is in the block. -/
theorem erase_parseString (malloc : Malloc) (reader : Reader) :
    (parseString malloc reader).map (fun parsed => (parsed.1.content, parsed.2)) =
      StandardBencSerializer.parseString reader := by
  unfold parseString StandardBencSerializer.parseString
  cases sizeLoop 0 [] reader with
  | error failure => rfl
  | ok pair =>
      dsimp only
      unfold readInto
      by_cases inside : strtoul pair.1 < pair.2.length
      · rw [if_pos inside, if_pos inside]
        by_cases empty : strtoul pair.1 = 0
        · rw [if_pos empty, empty]
          rfl
        · rw [if_neg empty]
          rfl
      · rw [if_neg inside, if_neg inside]
        rfl

variable {malloc : Malloc} {erange : Bool}

mutual

theorem erase_parseGeneric : ∀ (fuel : ℕ) (reader : Reader),
    (parseGeneric malloc erange fuel reader).map (fun parsed => (parsed.1.erase, parsed.2)) =
      StandardBencSerializer.parseGeneric erange fuel reader
  | 0, _ => rfl
  | fuel + 1, [] => rfl
  | fuel + 1, firstChar :: rest => by
      rw [parseGeneric, StandardBencSerializer.parseGeneric]
      by_cases digit : isDigit firstChar = true
      · rw [if_pos digit, if_pos digit, ← erase_parseString malloc]
        cases parseString malloc (firstChar :: rest) <;> rfl
      rw [if_neg digit, if_neg digit]
      by_cases integer : firstChar = I
      · rw [if_pos integer, if_pos integer]
        cases parseint64_t erange (firstChar :: rest) <;> rfl
      rw [if_neg integer, if_neg integer]
      by_cases list : firstChar = L
      · rw [if_pos list, if_pos list]
        cases readByte (firstChar :: rest) with
        | error failure => rfl
        | ok pair =>
            dsimp only
            rw [← erase_listLoop fuel]
            cases listLoop malloc erange fuel pair.2 <;> rfl
      rw [if_neg list, if_neg list]
      by_cases dict : firstChar = D
      · rw [if_pos dict, if_pos dict]
        cases readByte (firstChar :: rest) with
        | error failure => rfl
        | ok pair =>
            have loop := erase_dictionaryLoop fuel .nil pair.2
            rw [CDict.erase] at loop
            dsimp only
            rw [← loop]
            cases dictionaryLoop malloc erange fuel .nil pair.2 <;> rfl
      · rw [if_neg dict, if_neg dict]
        rfl

theorem erase_listLoop : ∀ (fuel : ℕ) (reader : Reader),
    (listLoop malloc erange fuel reader).map (fun parsed => (parsed.1.erase, parsed.2)) =
      StandardBencSerializer.listLoop erange fuel reader
  | 0, _ => rfl
  | fuel + 1, [] => rfl
  | fuel + 1, nextChar :: rest => by
      rw [listLoop, StandardBencSerializer.listLoop]
      by_cases ends : nextChar = E
      · rw [if_pos ends, if_pos ends]
        rfl
      rw [if_neg ends, if_neg ends, ← erase_parseGeneric fuel]
      cases parseGeneric malloc erange fuel (nextChar :: rest) with
      | error failure => rfl
      | ok pair =>
          change _ = Except.map _ (StandardBencSerializer.listLoop erange fuel pair.2)
          rw [← erase_listLoop fuel]
          dsimp only
          cases listLoop malloc erange fuel pair.2 <;> rfl

theorem erase_dictionaryLoop : ∀ (fuel : ℕ) (last : CDict) (reader : Reader),
    (dictionaryLoop malloc erange fuel last reader).map
        (fun parsed => (parsed.1.erase, parsed.2)) =
      StandardBencSerializer.dictionaryLoop erange fuel last.erase reader
  | 0, _, _ => rfl
  | fuel + 1, _, [] => rfl
  | fuel + 1, last, nextChar :: rest => by
      rw [dictionaryLoop, StandardBencSerializer.dictionaryLoop]
      by_cases ends : nextChar = E
      · rw [if_pos ends, if_pos ends]
        rfl
      rw [if_neg ends, if_neg ends, ← erase_parseString malloc]
      cases parseString malloc (nextChar :: rest) with
      | error failure => rfl
      | ok pair =>
          simp only [Except.map]
          rw [← erase_parseGeneric fuel]
          cases parseGeneric malloc erange fuel pair.2 with
          | error failure => rfl
          | ok second => exact erase_dictionaryLoop fuel _ _

end

/-- Without its memory, the dictionary is what `parseDictionary` is known to give. -/
theorem erase_parseDictionary (reader : Reader) :
    (parseDictionary malloc erange reader).map (fun parsed => (parsed.1.erase, parsed.2)) =
      StandardBencSerializer.parseDictionary erange reader := by
  unfold parseDictionary StandardBencSerializer.parseDictionary
  cases readByte reader with
  | error failure => rfl
  | ok pair =>
      dsimp only
      by_cases dict : pair.1 = D
      · rw [if_pos dict, if_pos dict]
        exact erase_dictionaryLoop _ .nil _
      · rw [if_neg dict, if_neg dict]
        rfl

/-! ## What is in the blocks -/

/-- The whole content is there, and the terminator unless there is no content. -/
structure IsRead (string : CString) : Prop where
  length_content : string.content.length = string.len
  terminated_iff : string.IsTerminated ↔ string.len ≠ 0

/-- An empty string has the next byte in its block, and any other its content and a terminator. -/
theorem parseString_cases {reader behind : Reader} {string : CString}
    (parsed : parseString malloc reader = .ok (string, behind)) :
    (string.len = 0 ∧ string.bytes = [string.source.headD 0] ∧ behind = string.source) ∨
      string.len ≠ 0 ∧ string.len < string.source.length ∧
        string.bytes = string.source.take string.len ++ [0] ∧
        behind = string.source.drop string.len := by
  unfold parseString at parsed
  cases loop : sizeLoop 0 [] reader with
  | error failure =>
      rw [loop] at parsed
      cases parsed
  | ok pair =>
      rcases pair with ⟨number, source⟩
      rw [loop] at parsed
      dsimp only at parsed
      generalize strtoul number = length at parsed
      have size := malloc.length_block source (length + 1)
      generalize malloc.block source (length + 1) = block at parsed size
      unfold readInto at parsed
      by_cases inside : length < source.length
      · rw [if_pos inside] at parsed
        by_cases empty : length = 0
        · rw [if_pos empty] at parsed
          subst empty
          rcases List.length_eq_one_iff.mp size with ⟨byte, rfl⟩
          cases parsed
          exact .inl ⟨rfl, rfl, rfl⟩
        · rw [if_neg empty] at parsed
          cases parsed
          have last : (block.set length 0).drop length = [0] := by
            rw [List.drop_set, if_neg (by omega), Nat.sub_self]
            rcases List.length_eq_one_iff.mp
              (show (block.drop length).length = 1 by rw [List.length_drop]; omega) with
              ⟨byte, single⟩
            rw [single]
            rfl
          exact .inr ⟨empty, inside, by rw [last], rfl⟩
      · rw [if_neg inside] at parsed
        cases parsed

/-- The next byte is in the place of the terminator of an empty string. -/
theorem isRead_of_parseString {reader behind : Reader} {string : CString}
    (parsed : parseString malloc reader = .ok (string, behind)) (begins : behind.headD 0 ≠ 0) :
    IsRead string := by
  rcases parseString_cases parsed with ⟨empty, bytes, rest⟩ | ⟨nonempty, inside, bytes, -⟩
  · refine ⟨by rw [CString.content, empty]; rfl, iff_of_false ?_ (not_not.mpr empty)⟩
    rintro ⟨terminator, -⟩
    rw [bytes, empty] at terminator
    rw [rest] at begins
    exact begins (Option.some.inj terminator)
  · have whole : string.content.length = string.len := by
      rw [CString.content, List.length_take, min_eq_left inside.le]
    refine ⟨whole, iff_of_true ⟨?_, ?_⟩ nonempty⟩
    · rw [bytes, ← CString.content, List.getElem?_append_right whole.le, whole, Nat.sub_self]
      rfl
    · rw [bytes]
      exact List.take_left' whole

theorem begins_of_parseString {reader behind : Reader} {string : CString}
    (parsed : parseString malloc reader = .ok (string, behind)) : reader.headD 0 ≠ 0 := by
  intro zero
  rcases reader with _ | ⟨first, _ | ⟨next, rest⟩⟩
  · cases parsed
  · cases parsed
  · rw [List.headD_cons] at zero
    subst zero
    cases parsed

theorem begins_of_parseGeneric {fuel : ℕ} {reader behind : Reader} {object : CObject}
    (parsed : parseGeneric malloc erange fuel reader = .ok (object, behind)) :
    reader.headD 0 ≠ 0 := by
  intro zero
  rcases fuel with _ | fuel
  · cases parsed
  rcases reader with _ | ⟨first, rest⟩
  · cases parsed
  · rw [List.headD_cons] at zero
    subst zero
    cases parsed

theorem begins_of_listLoop {fuel : ℕ} {reader behind : Reader} {list : CList}
    (parsed : listLoop malloc erange fuel reader = .ok (list, behind)) : reader.headD 0 ≠ 0 := by
  rcases fuel with _ | fuel
  · cases parsed
  rcases reader with _ | ⟨first, rest⟩
  · cases parsed
  rw [listLoop] at parsed
  split_ifs at parsed with ends
  · rw [ends, List.headD_cons]
    decide
  · cases value : parseGeneric malloc erange fuel (first :: rest) with
    | error failure =>
        rw [value] at parsed
        cases parsed
    | ok pair => exact begins_of_parseGeneric value

/-- `dictionaryLoop` is at the end, or it reads a key and a value. -/
theorem dictionaryLoop_eq_ok {fuel : ℕ} {last entries : CDict} {reader behind : Reader}
    (parsed : dictionaryLoop malloc erange fuel last reader = .ok (entries, behind)) :
    (entries = last ∧ reader = E :: behind) ∨ ∃ smaller key second val third, fuel = smaller + 1 ∧
      parseString malloc reader = .ok (key, second) ∧
      parseGeneric malloc erange smaller second = .ok (val, third) ∧
      dictionaryLoop malloc erange smaller (.cons key val last) third = .ok (entries, behind) := by
  rcases fuel with _ | fuel
  · cases parsed
  rcases reader with _ | ⟨first, rest⟩
  · cases parsed
  rw [dictionaryLoop] at parsed
  split_ifs at parsed with ends
  · cases parsed
    exact .inl ⟨rfl, by rw [ends]⟩
  cases front : parseString malloc (first :: rest) with
  | error failure =>
      rw [front] at parsed
      cases parsed
  | ok pair =>
      rcases pair with ⟨key, second⟩
      simp only [front] at parsed
      cases value : parseGeneric malloc erange fuel second with
      | error failure =>
          rw [value] at parsed
          cases parsed
      | ok pair =>
          rcases pair with ⟨val, third⟩
          simp only [value] at parsed
          exact .inr ⟨fuel, key, second, val, third, rfl, rfl, value, parsed⟩

theorem begins_of_dictionaryLoop {fuel : ℕ} {last entries : CDict} {reader behind : Reader}
    (parsed : dictionaryLoop malloc erange fuel last reader = .ok (entries, behind)) :
    reader.headD 0 ≠ 0 := by
  rcases dictionaryLoop_eq_ok parsed with ⟨-, rfl⟩ | ⟨-, key, second, -, -, -, front, -⟩
  · rw [List.headD_cons]
    decide
  · exact begins_of_parseString front

mutual

/-- Every string of a value is read into its block, if the value has something behind it. -/
theorem isRead_of_parseGeneric : ∀ (fuel : ℕ) {reader behind : Reader} {object : CObject},
    parseGeneric malloc erange fuel reader = .ok (object, behind) → behind.headD 0 ≠ 0 →
      ∀ string ∈ object.strings, IsRead string
  | 0, _, _, _, parsed, _ => by cases parsed
  | fuel + 1, [], _, _, parsed, _ => by cases parsed
  | fuel + 1, first :: rest, behind, object, parsed, begins => by
      intro string member
      rw [parseGeneric] at parsed
      split_ifs at parsed with digit integer list dict
      · rcases eq_ok_of_map parsed with ⟨read, whole, rfl⟩
        rw [CObject.strings, List.mem_singleton] at member
        rw [member]
        exact isRead_of_parseString whole begins
      · rcases eq_ok_of_map parsed with ⟨number, -, rfl⟩
        cases member
      · rcases eq_ok_of_readByte parsed with ⟨items, loop, rfl⟩
        exact isRead_of_listLoop fuel loop string member
      · rcases eq_ok_of_readByte parsed with ⟨entries, loop, rfl⟩
        rcases isRead_of_dictionaryLoop fuel loop string member with old | read
        · cases old
        · exact read

theorem isRead_of_listLoop : ∀ (fuel : ℕ) {reader behind : Reader} {list : CList},
    listLoop malloc erange fuel reader = .ok (list, behind) →
      ∀ string ∈ list.strings, IsRead string
  | 0, _, _, _, parsed => by cases parsed
  | fuel + 1, [], _, _, parsed => by cases parsed
  | fuel + 1, first :: rest, behind, list, parsed => by
      intro string member
      rw [listLoop] at parsed
      split_ifs at parsed with ends
      · cases parsed
        cases member
      · cases value : parseGeneric malloc erange fuel (first :: rest) with
        | error failure =>
            rw [value] at parsed
            cases parsed
        | ok pair =>
            rw [value] at parsed
            rcases eq_ok_of_map parsed with ⟨next, loop, rfl⟩
            rw [CList.strings, List.mem_append] at member
            rcases member with inside | inside
            · exact isRead_of_parseGeneric fuel value (begins_of_listLoop loop) string inside
            · exact isRead_of_listLoop fuel loop string inside

theorem isRead_of_dictionaryLoop : ∀ (fuel : ℕ) {last entries : CDict} {reader behind : Reader},
    dictionaryLoop malloc erange fuel last reader = .ok (entries, behind) →
      ∀ string ∈ entries.strings, string ∈ last.strings ∨ IsRead string
  | 0, _, _, _, _, parsed => by cases parsed
  | fuel + 1, last, entries, reader, behind, parsed => by
      intro string member
      rcases dictionaryLoop_eq_ok parsed with
        ⟨rfl, -⟩ | ⟨smaller, key, second, val, third, fuel_eq, front, value, loop⟩
      · exact .inl member
      cases fuel_eq
      rcases isRead_of_dictionaryLoop fuel loop string member with inside | read
      · rw [CDict.strings, List.mem_cons, List.mem_append] at inside
        rcases inside with rfl | inside | inside
        · exact .inr (isRead_of_parseString front (begins_of_parseGeneric value))
        · exact .inr (isRead_of_parseGeneric fuel value (begins_of_dictionaryLoop loop) string
            inside)
        · exact .inl inside
      · exact .inr read

end

theorem isRead_of_parseDictionary {reader behind : Reader} {entries : CDict}
    (parsed : parseDictionary malloc erange reader = .ok (entries, behind)) :
    ∀ string ∈ entries.strings, IsRead string := by
  intro string member
  unfold parseDictionary at parsed
  cases byte : readByte reader with
  | error failure =>
      rw [byte] at parsed
      cases parsed
  | ok pair =>
      simp only [byte] at parsed
      split_ifs at parsed with dict
      rcases isRead_of_dictionaryLoop _ parsed string member with old | read
      · cases old
      · exact read

/-! ## Dictionaries -/

/-- Every string of a dictionary that is accepted has its content and a terminator. -/
def ParsesCStrings (malloc : Malloc) (erange : Bool) (reader : Reader) : Prop :=
  ∀ entries behind, parseDictionary malloc erange reader = .ok (entries, behind) →
    ∀ string ∈ entries.strings, string.IsTerminated

theorem all_terminated_iff {reader behind : Reader} {entries : CDict}
    (parsed : parseDictionary malloc erange reader = .ok (entries, behind)) :
    (∀ string ∈ entries.strings, string.IsTerminated) ↔ entries.erase.hasEmpty = false := by
  rw [entries.hasEmpty_erase, List.any_eq_false]
  refine forall₂_congr fun string member => ?_
  have read := isRead_of_parseDictionary parsed string member
  rw [read.terminated_iff, List.isEmpty_iff, ← List.length_eq_zero_iff, read.length_content]

/-- There are no empty strings in what is accepted, or they have no terminators. -/
theorem parsesCStrings_iff {reader : Reader} (small : reader.length < 2 ^ 64) :
    ParsesCStrings malloc erange reader ↔
      ¬∃ word tree, IsDictionary false word tree ∧ word <+: reader ∧
        (erange = true → tree.hasExtreme = false) ∧ tree.hasEmpty = true := by
  constructor
  · rintro terminated ⟨word, tree, isDictionary, ⟨behind, whole⟩, fine, empty⟩
    have accepted := (@parseDictionary_eq_ok erange _ _ _ small).mpr
      ⟨word, tree, isDictionary, rfl, fine, whole.symm⟩
    rw [← @erase_parseDictionary malloc] at accepted
    rcases eq_ok_of_map accepted with ⟨entries, parsed, same⟩
    have none := (all_terminated_iff parsed).mp (terminated entries behind parsed)
    rw [same, ← tree.same_mirror.hasEmpty_eq, empty] at none
    cases none
  · intro none entries behind parsed
    have accepted := @erase_parseDictionary malloc erange reader
    rw [parsed] at accepted
    rcases (parseDictionary_eq_ok small).mp accepted.symm with
      ⟨word, tree, isDictionary, same, fine, whole⟩
    rw [all_terminated_iff parsed, same, ← tree.same_mirror.hasEmpty_eq, Bool.eq_false_iff]
    exact fun empty => none ⟨word, tree, isDictionary, ⟨behind, whole.symm⟩, fine, empty⟩

/-- An allocator whose blocks are all zeros -/
def zeros : Malloc where
  block _ size := List.replicate size 0
  length_block _ _ := List.length_replicate

/-- The keys and values of `d1:ai-7e1:bl2:xyd1:c1:zeee` all have their terminators. -/
theorem parsesCStrings_mixed : ParsesCStrings zeros false (newReader mixedWord 0) := by
  refine (parsesCStrings_iff (by decide)).mpr ?_
  rintro ⟨word, tree, isDictionary, front, -, empty⟩
  rcases word_unique (by decide) isDictionary mixedWord_isDictionary.lenient front
    (List.prefix_append _ _) with ⟨-, rfl⟩
  exact absurd empty (by decide)

/-- The value of `d1:a0:e` has the `e` in the place of its terminator. -/
theorem empty_value_unterminated :
    ¬ParsesCStrings zeros false (newReader [D, 0x31, COLON, 0x61, 0x30, COLON, E] 0) := by
  intro terminated
  have last := terminated (.cons ⟨[0x61, 0], 1, [0x61, 0x30, COLON, E, 0]⟩
    (.string ⟨[E], 0, [E, 0]⟩) .nil) [0] rfl ⟨[E], 0, [E, 0]⟩
    (by simp [CDict.strings, CObject.strings])
  exact absurd last.1 (by decide)

end InMemory

end Cjdns
