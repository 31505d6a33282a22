import Cjdns.Benc.BencodeRoundTrip
import Cjdns.Io.ArrayWriter

/-!
# Bencode in a buffer

The bencode serializer writes to an `ArrayWriter`, piece by piece, and hardly looks at the return
codes. What is in the buffer in the end is what was to be written, if there was room, and
otherwise the pieces in front of the first one that did not fit. These are not read back.
-/

namespace Cjdns.StandardBencSerializer

open Decimal

/-! ## Writing -/

/-- `writeint64_t` -/
def writeint64_t (integer : BitVec 64) (writer : ArrayWriter) : ℤ × ArrayWriter :=
  writer.write (ofInt integer.toInt)

/-- `serializeString`, with its writer -/
def writeString (string : BString) (writer : ArrayWriter) : ℤ × ArrayWriter :=
  let (_, writer) := writeint64_t (BitVec.ofNat 64 string.length) writer
  let (_, writer) := writer.write [COLON]
  writer.write string

/-- `serializeint64_t`, with its writer -/
def writeInteger (integer : BitVec 64) (writer : ArrayWriter) : ℤ × ArrayWriter :=
  let (_, writer) := writer.write [I]
  let (_, writer) := writeint64_t integer writer
  writer.write [E]

mutual

/-- `serializeGeneric`, with its writer -/
def writeGeneric : Object → ArrayWriter → ℤ × ArrayWriter
  | .string bytes, writer => writeString bytes writer
  | .integer number, writer => writeInteger number writer
  | .list list, writer =>
      let (ret, writer) := writer.write [L]
      writeItems list ret writer
  | .dict dictionary, writer =>
      let (_, writer) := writer.write [D]
      writeEntries dictionary writer

/-- The loop of `serializeList` and the `e`, which are left at the first failure -/
def writeItems : BList → ℤ → ArrayWriter → ℤ × ArrayWriter
  | .nil, ret, writer => if ret = 0 then writer.write [E] else (ret, writer)
  | .cons elem next, ret, writer =>
      if ret = 0 then
        let (ret, writer) := writeGeneric elem writer
        writeItems next ret writer
      else (ret, writer)

/-- The loop of `serializeDictionary` and the `e` -/
def writeEntries : Dict → ArrayWriter → ℤ × ArrayWriter
  | .nil, writer => writer.write [E]
  | .cons key val next, writer =>
      let (_, writer) := writeString key writer
      let (_, writer) := writeGeneric val writer
      writeEntries next writer

end

/-- `serializeDictionary`, with its writer -/
def writeDictionary (dictionary : Dict) (writer : ArrayWriter) : ℤ × ArrayWriter :=
  let (_, writer) := writer.write [D]
  writeEntries dictionary writer

/-! ## The pieces -/

/-- What is written for a string -/
def stringPieces (string : BString) : List BString :=
  [ofInt (BitVec.ofNat 64 string.length).toInt, [COLON], string]

mutual

def objectPieces : Object → List BString
  | .string bytes => stringPieces bytes
  | .integer number => [[I], ofInt number.toInt, [E]]
  | .list list => [L] :: itemPieces list
  | .dict dictionary => [D] :: entryPieces dictionary

def itemPieces : BList → List BString
  | .nil => [[E]]
  | .cons elem next => objectPieces elem ++ itemPieces next

def entryPieces : Dict → List BString
  | .nil => [[E]]
  | .cons key val next => stringPieces key ++ (objectPieces val ++ entryPieces next)

end

theorem flatten_stringPieces (string : BString) :
    (stringPieces string).flatten = serializeString string := by
  simp [stringPieces, serializeString]

mutual

theorem flatten_objectPieces : ∀ object : Object,
    (objectPieces object).flatten = serializeGeneric object
  | .string bytes => flatten_stringPieces bytes
  | .integer number => by simp [objectPieces, serializeGeneric, serializeint64_t]
  | .list list => by
      rw [objectPieces, List.flatten_cons, flatten_itemPieces list, serializeGeneric]
      rfl
  | .dict dictionary => by
      rw [objectPieces, List.flatten_cons, flatten_entryPieces dictionary, serializeGeneric]
      rfl

theorem flatten_itemPieces : ∀ list : BList, (itemPieces list).flatten = serializeItems list
  | .nil => rfl
  | .cons elem next => by
      rw [itemPieces, List.flatten_append, flatten_objectPieces elem, flatten_itemPieces next,
        serializeItems]

theorem flatten_entryPieces : ∀ dictionary : Dict,
    (entryPieces dictionary).flatten = serializeEntries dictionary
  | .nil => rfl
  | .cons key val next => by
      rw [entryPieces, List.flatten_append, List.flatten_append, flatten_stringPieces,
        flatten_objectPieces val, flatten_entryPieces next, serializeEntries]

end

/-- A call writes pieces and returns what the last write returned. -/
def Writes (call : ArrayWriter → ℤ × ArrayWriter) (pieces : List BString) : Prop :=
  ∀ writer, call writer = ((writer.writeAll pieces).returnCode, writer.writeAll pieces)

theorem writes_string (string : BString) : Writes (writeString string) (stringPieces string) := by
  intro writer
  rw [stringPieces, ArrayWriter.writeAll_cons, ArrayWriter.writeAll_cons,
    ArrayWriter.writeAll_cons, ArrayWriter.writeAll_nil]
  exact Prod.ext (ArrayWriter.write_fst _ _) rfl

theorem writes_integer (number : BitVec 64) :
    Writes (writeInteger number) [[I], ofInt number.toInt, [E]] := by
  intro writer
  rw [ArrayWriter.writeAll_cons, ArrayWriter.writeAll_cons, ArrayWriter.writeAll_cons,
    ArrayWriter.writeAll_nil]
  exact Prod.ext (ArrayWriter.write_fst _ _) rfl

mutual

theorem writes_generic : ∀ object : Object, Writes (writeGeneric object) (objectPieces object)
  | .string bytes, writer => writes_string bytes writer
  | .integer number, writer => writes_integer number writer
  | .list list, writer => by
      rw [writeGeneric, objectPieces, ArrayWriter.writeAll_cons]
      dsimp only
      rw [ArrayWriter.write_fst]
      exact writes_items list _
  | .dict dictionary, writer => by
      rw [writeGeneric, objectPieces, ArrayWriter.writeAll_cons]
      exact writes_entries dictionary _

/-- A loop that is left after a failure writes no less than one that goes on. -/
theorem writes_items : ∀ list : BList,
    Writes (fun writer => writeItems list writer.returnCode writer) (itemPieces list)
  | .nil, writer => by
      rw [itemPieces, ArrayWriter.writeAll_cons, ArrayWriter.writeAll_nil]
      dsimp only
      rw [writeItems]
      split_ifs with fine
      · exact Prod.ext (ArrayWriter.write_fst _ _) rfl
      · rw [ArrayWriter.write_of_failed fine]
  | .cons elem next, writer => by
      rw [itemPieces, ArrayWriter.writeAll_append]
      dsimp only
      rw [writeItems]
      split_ifs with fine
      · rw [writes_generic elem writer]
        exact writes_items next _
      · rw [ArrayWriter.writeAll_of_failed fine, ArrayWriter.writeAll_of_failed fine]

theorem writes_entries : ∀ dictionary : Dict,
    Writes (writeEntries dictionary) (entryPieces dictionary)
  | .nil, writer => by
      rw [writeEntries, entryPieces, ArrayWriter.writeAll_cons, ArrayWriter.writeAll_nil]
      exact Prod.ext (ArrayWriter.write_fst _ _) rfl
  | .cons key val next, writer => by
      rw [writeEntries, entryPieces, ArrayWriter.writeAll_append, ArrayWriter.writeAll_append,
        writes_string key writer]
      dsimp only
      rw [writes_generic val]
      exact writes_entries next _

end

/-- The writer gets the dictionary piece by piece. -/
theorem writeDictionary_eq (dictionary : Dict) (writer : ArrayWriter) :
    (writeDictionary dictionary writer).2 = writer.writeAll ([D] :: entryPieces dictionary) := by
  rw [writeDictionary, ArrayWriter.writeAll_cons]
  dsimp only
  rw [writes_entries dictionary]

theorem flatten_pieces (dictionary : Dict) :
    ([D] :: entryPieces dictionary).flatten = serializeDictionary dictionary := by
  rw [List.flatten_cons, flatten_entryPieces, serializeDictionary]
  rfl

/-! ## Reading back -/

theorem entries_end {strict : Bool} {word : BString} {entries : Dict} :
    IsEntries strict word entries → ∃ front, word = front ++ [E]
  | .nil => ⟨[], rfl⟩
  | @IsEntries.cons _ first second _ _ _ _ _ _ next_is => by
      rcases entries_end next_is with ⟨front, rfl⟩
      exact ⟨first ++ (second ++ front), by simp⟩

/-- A word ends with an `e`. -/
theorem dictionary_ends {strict : Bool} {word : BString} {entries : Dict}
    (is : IsDictionary strict word entries) : ∃ front, word = front ++ [E] := by
  rcases is with ⟨entries_are⟩
  rcases entries_end entries_are with ⟨front, rfl⟩
  exact ⟨D :: front, rfl⟩

/-- Whatever is in memory behind the bytes, they are read as an equal tree. -/
def ReadsBack (erange : Bool) (bytes : BString) (dictionary : Dict) : Prop :=
  ∀ behind, ∃ output reader,
    parseDictionary erange (newReader bytes behind) = .ok (output, reader) ∧
      dictionary.Same output

/-- Of the fronts of a word, only the whole of it is read. -/
theorem whole_of_parse {erange : Bool} {bytes : BString} {dictionary output : Dict}
    {reader : Reader} (small : (serializeDictionary dictionary).length < 2 ^ 63)
    (front : bytes <+: serializeDictionary dictionary)
    (parsed : parseDictionary erange (newReader bytes 0) = .ok (output, reader)) :
    bytes = serializeDictionary dictionary ∧ (erange = true → dictionary.hasExtreme = false) := by
  have shorter := front.length_le
  have bound : (newReader bytes 0).length < 2 ^ 64 := by
    rw [newReader, List.length_append, List.length_singleton]
    omega
  rcases (parseDictionary_eq_ok bound).mp parsed with ⟨word, tree, isTree, -, fine, same⟩
  have inside : word <+: bytes := by
    rcases dictionary_ends isTree with ⟨begins, rfl⟩
    rcases List.eq_nil_or_concat' reader with rfl | ⟨rest, last, rfl⟩
    · -- the byte behind is no `e`
      rw [newReader, List.append_nil] at same
      exact absurd (List.append_inj_right' same rfl) (by decide)
    · rw [newReader, ← List.append_assoc] at same
      exact ⟨rest, (List.append_inj_left' same rfl).symm⟩
  rcases word_unique (by omega) (isDictionary_serialize small).lenient isTree
    (List.prefix_refl _) (inside.trans front) with ⟨rfl, rfl⟩
  exact ⟨front.eq_of_length_le inside.length_le, fine⟩

/-- What is left in a buffer is read back exactly if there was room for all of it, unless `errno`
is `ERANGE` and there is an extreme integer. -/
theorem readsBack_iff {erange : Bool} {buffer : BString} {dictionary : Dict}
    (small : (serializeDictionary dictionary).length < 2 ^ 63) :
    ReadsBack erange (writeDictionary dictionary (ArrayWriter.new buffer)).2.contents dictionary ↔
      (serializeDictionary dictionary).length ≤ buffer.length ∧
        ¬(erange = true ∧ dictionary.hasExtreme = true) := by
  have front := ArrayWriter.contents_writeAll_prefix ([D] :: entryPieces dictionary)
    (ArrayWriter.new buffer)
  rw [flatten_pieces, ArrayWriter.contents_new, List.nil_append] at front
  rw [writeDictionary_eq]
  constructor
  · intro reads
    rcases reads 0 with ⟨output, reader, parsed, -⟩
    rcases whole_of_parse small front parsed with ⟨whole, fine⟩
    refine ⟨?_, fun ⟨old, extreme⟩ => ?_⟩
    · rw [← whole, ArrayWriter.length_contents]
      refine le_trans (ArrayWriter.inside _) ?_
      rw [ArrayWriter.length_buffer_writeAll]
      exact le_rfl
    · rw [fine old] at extreme
      cases extreme
  · rintro ⟨fits, fine⟩ behind
    rw [ArrayWriter.contents_writeAll_of_fits rfl _ (by
      rw [flatten_pieces]
      exact (Nat.zero_add _).trans_le fits), ArrayWriter.contents_new, flatten_pieces,
      List.nil_append]
    rcases (@roundTrips_iff erange behind dictionary small).mpr fine with
      ⟨output, reader, parsed, -, same⟩
    exact ⟨output, reader, parsed, same⟩

/-- What is left in a buffer is all that was to be written exactly if there was room for it. -/
theorem contents_eq_iff {buffer : BString} {dictionary : Dict} :
    (writeDictionary dictionary (ArrayWriter.new buffer)).2.contents =
        serializeDictionary dictionary ↔
      (serializeDictionary dictionary).length ≤ buffer.length := by
  rw [writeDictionary_eq]
  constructor
  · intro whole
    rw [← whole, ArrayWriter.length_contents]
    refine le_trans (ArrayWriter.inside _) ?_
    rw [ArrayWriter.length_buffer_writeAll]
    exact le_rfl
  · intro fits
    rw [ArrayWriter.contents_writeAll_of_fits rfl _ (by
      rw [flatten_pieces]
      exact (Nat.zero_add _).trans_le fits), ArrayWriter.contents_new, flatten_pieces,
      List.nil_append]

/-! ## Sizes -/

theorem length_ofInt_le (number : BitVec 64) : (ofInt number.toInt).length ≤ 21 := by
  have low := BitVec.le_toInt number
  have high := @BitVec.toInt_lt 64 number
  have digits : (ofNat number.toInt.natAbs).length ≤ 20 :=
    length_ofNat_le (by omega) (lt_of_le_of_lt (show _ ≤ 2 ^ 63 by omega) (by norm_num))
  rw [ofInt]
  split_ifs
  · exact Nat.succ_le_succ digits
  · omega

theorem length_serializeString_le (string : BString) :
    (serializeString string).length ≤ string.length + 22 := by
  have digits := length_ofInt_le (BitVec.ofNat 64 string.length)
  rw [serializeString, List.length_append, List.length_cons]
  omega

/-- Putting an entry adds no more than the entry. -/
theorem length_putObject_le (key : BString) (value : Object) : ∀ dictionary : Dict,
    (serializeEntries (dictionary.putObject key value)).length ≤
      (serializeEntries dictionary).length + (serializeString key).length +
        (serializeGeneric value).length
  | .nil => by
      simp only [Dict.putObject, serializeEntries, List.length_append]
      omega
  | .cons other val next => by
      have inner := length_putObject_le key value next
      rw [Dict.putObject]
      split_ifs
      · simp only [serializeEntries, List.length_append]
        omega
      · simp only [serializeEntries, List.length_append]
        omega
      · simp only [serializeEntries, List.length_append] at inner ⊢
        omega

/-- A dictionary has a string for a value. -/
def HasString (string : BString) : Dict → Prop
  | .nil => False
  | .cons _ val next => val = .string string ∨ HasString string next

theorem hasString_of_lookup {key string : BString} : ∀ {dictionary : Dict},
    dictionary.lookup key = some (.string string) → HasString string dictionary
  | .cons other val next, found => by
      rw [Dict.lookup] at found
      split_ifs at found with same
      · exact .inl (Option.some.inj found)
      · exact .inr (hasString_of_lookup found)

theorem hasString_mirrorOnto {string : BString} : ∀ {dictionary base : Dict},
    HasString string (dictionary.mirrorOnto base) →
      HasString string dictionary ∨ HasString string base
  | .nil, base, has => .inr has
  | .cons key val next, base, has => by
      rw [Dict.mirrorOnto] at has
      rcases hasString_mirrorOnto has with inside | first | base
      · exact .inl (.inr inside)
      · rcases val with bytes | number | list | dictionary
        · exact .inl (.inl first)
        all_goals
          rw [Object.mirror] at first
          cases first
      · exact .inr base

theorem length_le_of_hasString {strict : Bool} {string word : BString} {entries : Dict} :
    IsEntries strict word entries → HasString string entries → string.length ≤ word.length
  | @IsEntries.cons _ first second rest _ _ _ _ val_is next_is, has => by
      rw [List.length_append, List.length_append]
      rcases has with rfl | has
      · rcases val_is with ⟨⟨all, short, some, size⟩⟩
        rw [List.length_append, List.length_cons]
        omega
      · have := length_le_of_hasString next_is has
        omega

/-- A string that was read is no longer than what it was read from. -/
theorem length_le_of_getString {erange : Bool} {reader reader' : Reader} {entries : Dict}
    {key string : BString} (small : reader.length < 2 ^ 64)
    (parsed : parseDictionary erange reader = .ok (entries, reader'))
    (found : entries.getString key = some string) : string.length ≤ reader.length := by
  rcases (parseDictionary_eq_ok small).mp parsed with ⟨word, tree, ⟨isEntries⟩, rfl, -, rfl⟩
  have looked : (tree.mirrorOnto .nil).lookup key = some (.string string) := by
    rw [Dict.getString] at found
    rcases lookedUp : (tree.mirrorOnto .nil).lookup key with _ | (bytes | number | list | dictionary)
    all_goals
      rw [lookedUp] at found
      cases found
    rfl
  rcases hasString_mirrorOnto (hasString_of_lookup looked) with has | none
  · have := length_le_of_hasString isEntries has
    rw [List.length_append, List.length_cons]
    omega
  · exact absurd none id

end Cjdns.StandardBencSerializer
