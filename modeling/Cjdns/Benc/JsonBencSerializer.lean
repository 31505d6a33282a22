import Cjdns.Benc.StandardBencSerializer
import Cjdns.Util.Hex

/-!
# The JSON serializer

`JsonBencSerializer.c`, on the same readers. Where a read fails, the program may still look at the
character of an earlier one; a loop that may do so is given that character. The fuel is for the
loops that may not end.
-/

namespace Cjdns.JsonBencSerializer

open Decimal StandardBencSerializer

/-! ## Parsing -/

abbrev QUOTE : BitVec 8 := 0x22

abbrev SLASH : BitVec 8 := 0x2F

abbrev SPLAT : BitVec 8 := 0x2A

abbrev NEWLINE : BitVec 8 := 0x0A

abbrev COMMA : BitVec 8 := 0x2C

abbrev SPACE : BitVec 8 := 0x20

abbrev BACKSLASH : BitVec 8 := 0x5C

abbrev X : BitVec 8 := 0x78

abbrev LIST_BEGIN : BitVec 8 := 0x5B

abbrev LIST_END : BitVec 8 := 0x5D

abbrev DICT_BEGIN : BitVec 8 := 0x7B

abbrev DICT_END : BitVec 8 := 0x7D

/-- What a function returns that may fail, and where the reader then is -/
abbrev Status := Option Failure × Reader

/-- `readUntil` -/
def readUntil (target : BitVec 8) : Reader → Status
  | nextChar :: next :: rest =>
      if nextChar = target then (none, next :: rest) else readUntil target (next :: rest)
  | reader => (some .OUT_OF_CONTENT_TO_READ, reader)

/-- The loop of `parseComment`: `readUntil` stops behind a splat, and then one more character is
read. -/
def splatLoop (behindSplat : Bool) : Reader → Status
  | nextChar :: next :: rest =>
      if behindSplat then
        if nextChar = SLASH then (none, next :: rest) else splatLoop false (next :: rest)
      else splatLoop (nextChar = SPLAT) (next :: rest)
  | reader => (some .OUT_OF_CONTENT_TO_READ, reader)

/-- `parseComment` -/
def parseComment : Reader → Status
  | first :: second :: next :: rest =>
      if first ≠ SLASH then (some .UNPARSABLE, next :: rest)
      else if second = SPLAT then splatLoop false (next :: rest)
      else if second = SLASH then readUntil NEWLINE (next :: rest)
      else (some .UNPARSABLE, next :: rest)
  | reader => (some .OUT_OF_CONTENT_TO_READ, reader)

abbrev BUFF_MAX : ℕ := 2 ^ 20

/-- The loop of `parseString`, from the reading of a character on -/
def stringLoop (i : ℕ) (buffer : BString) : Reader → Parsed BString
  | nextChar :: next :: rest =>
      if i ≥ BUFF_MAX - 1 then .error .UNPARSABLE
      else if nextChar = BACKSLASH then
        match rest with
        | high :: low :: next :: rest =>
            match Hex.decodeByte high low with
            | some byte => stringLoop (i + 1) (buffer ++ [byte]) (next :: rest)
            | none => .error .UNPARSABLE
        | _ => .error .OUT_OF_CONTENT_TO_READ
      else if nextChar = QUOTE then .ok (buffer, next :: rest)
      else stringLoop (i + 1) (buffer ++ [nextChar]) (next :: rest)
  | _ => .error .OUT_OF_CONTENT_TO_READ

/-- `parseString` -/
def parseString (reader : Reader) : Parsed BString :=
  match readUntil QUOTE reader with
  | (some failure, _) => .error failure
  | (none, reader) => stringLoop 0 [] reader

/-- The loop of `parseint64_t`, with how many more characters may be read -/
def integerLoop : ℕ → ℕ → BString → Reader → Parsed BString
  | 0, _, _, _ => .error .UNPARSABLE
  | _ + 1, _, buffer, [] => .ok (buffer, [])
  | left + 1, i, buffer, char :: rest =>
      -- The minus is not skipped.
      if i = 0 ∧ char = MINUS then integerLoop left (i + 1) (buffer ++ [char]) (char :: rest)
      else if isDigit char = false then .ok (buffer, char :: rest)
      else integerLoop left (i + 1) (buffer ++ [char]) rest

/-- `parseint64_t`, where `errno` may be `ERANGE` beforehand -/
def parseint64_t (erange : Bool) (reader : Reader) : Parsed (BitVec 64) :=
  match integerLoop 21 0 [] reader with
  | .error failure => .error failure
  | .ok (buffer, reader) =>
      let out := strtol (buffer ++ [0])
      if out.number = 0 ∧ buffer.getD 0 0 ≠ 0x30 ∧
          (buffer.getD 0 0 ≠ MINUS ∨ buffer.getD 1 0 ≠ 0x30) then .error .UNPARSABLE
      else if (out.number = 2 ^ 63 - 1 ∨ out.number = -2 ^ 63) ∧ (erange || out.outOfRange) then
        .error .UNPARSABLE
      else .ok (BitVec.ofInt 64 out.number, reader)

/-- The white space in front of a value -/
def isWhite (char : BitVec 8) : Bool :=
  char = SPACE ∨ char = 0x0D ∨ char = NEWLINE ∨ char = 0x09

/-- What begins an element of a list -/
def beginsElement (char : BitVec 8) : Bool :=
  isDigit char ∨ char = LIST_BEGIN ∨ char = DICT_BEGIN ∨ char = QUOTE

mutual

/-- The loop of `parseGeneric`, and what follows it, with the last `firstChar` -/
def genericLoop (erange : Bool) : ℕ → BitVec 8 → Reader → Parsed Object
  | 0, _, _ => .error .outOfFuel
  | fuel + 1, firstChar, reader =>
      let firstChar := reader.headD firstChar
      if isWhite firstChar then genericLoop erange fuel firstChar reader.tail
      else if firstChar = SLASH then
        match parseComment reader with
        | (some failure, _) => .error failure
        | (none, reader) => genericLoop erange fuel firstChar reader
      else if reader = [] then .error .OUT_OF_CONTENT_TO_READ
      else if isDigit firstChar then
        (parseint64_t erange reader).map fun parsed => (.integer parsed.1, parsed.2)
      else if firstChar = LIST_BEGIN then
        (listLoop erange fuel (readUntil LIST_BEGIN reader).2).map
          fun parsed => (.list parsed.1, parsed.2)
      else if firstChar = DICT_BEGIN then
        (dictionaryLoop erange fuel 0 .nil (readUntil DICT_BEGIN reader).2).map
          fun parsed => (.dict parsed.1, parsed.2)
      else if firstChar = QUOTE then
        (parseString reader).map fun parsed => (.string parsed.1, parsed.2)
      else .error .UNPARSABLE

/-- The loops of `parseList` -/
def listLoop (erange : Bool) : ℕ → Reader → Parsed BList
  | 0, _ => .error .outOfFuel
  | fuel + 1, reader =>
      match reader with
      | [] => .error .OUT_OF_CONTENT_TO_READ
      | nextChar :: rest =>
          if nextChar = SLASH then
            match parseComment reader with
            | (some failure, _) => .error failure
            | (none, reader) => listLoop erange fuel reader
          else if beginsElement nextChar then
            match genericLoop erange fuel 0 reader with
            | .error failure => .error failure
            | .ok (element, reader) =>
                (listLoop erange fuel reader).map fun parsed => (.cons element parsed.1, parsed.2)
          else if nextChar = LIST_END then .ok (.nil, rest)
          else listLoop erange fuel rest

/-- The loops of `parseDictionary`, with the last `nextChar` and the entries so far -/
def dictionaryLoop (erange : Bool) : ℕ → BitVec 8 → Dict → Reader → Parsed Dict
  | 0, _, _, _ => .error .outOfFuel
  | fuel + 1, nextChar, lastEntryPointer, reader =>
      let nextChar := reader.headD nextChar
      if nextChar = QUOTE then
        if reader = [] then .error .OUT_OF_CONTENT_TO_READ
        else
          match parseString reader with
          | .error failure => .error failure
          | .ok (key, reader) =>
              match genericLoop erange fuel 0 (readUntil COLON reader).2 with
              | .error failure => .error failure
              | .ok (value, reader) =>
                  dictionaryLoop erange fuel nextChar (.cons key value lastEntryPointer) reader
      else if nextChar = DICT_END then .ok (lastEntryPointer, reader.tail)
      else if reader = [] then .error .OUT_OF_CONTENT_TO_READ
      else if nextChar = SLASH then
        dictionaryLoop erange fuel nextChar lastEntryPointer (parseComment reader).2
      else dictionaryLoop erange fuel nextChar lastEntryPointer reader.tail

end

/-- `parseGeneric`. Nothing is read yet; the character is there as the reader is not beyond its
end. -/
def parseGeneric (erange : Bool) (fuel : ℕ) (reader : Reader) : Parsed Object :=
  genericLoop erange fuel 0 reader

/-- `parseDictionary` -/
def parseDictionary (erange : Bool) (fuel : ℕ) (reader : Reader) : Parsed Dict :=
  dictionaryLoop erange fuel 0 .nil (readUntil DICT_BEGIN reader).2

/-! ## The loops on a reader that is not beyond its end -/

variable {erange : Bool}

theorem genericLoop_cons (fuel : ℕ) (stale char : BitVec 8) (rest : Reader) :
    genericLoop erange (fuel + 1) stale (char :: rest) =
      if isWhite char then genericLoop erange fuel char rest
      else if char = SLASH then
        match parseComment (char :: rest) with
        | (some failure, _) => .error failure
        | (none, reader) => genericLoop erange fuel char reader
      else if isDigit char then
        (parseint64_t erange (char :: rest)).map fun parsed => (.integer parsed.1, parsed.2)
      else if char = LIST_BEGIN then
        (listLoop erange fuel (readUntil LIST_BEGIN (char :: rest)).2).map
          fun parsed => (.list parsed.1, parsed.2)
      else if char = DICT_BEGIN then
        (dictionaryLoop erange fuel 0 .nil (readUntil DICT_BEGIN (char :: rest)).2).map
          fun parsed => (.dict parsed.1, parsed.2)
      else if char = QUOTE then
        (parseString (char :: rest)).map fun parsed => (.string parsed.1, parsed.2)
      else .error .UNPARSABLE := by
  rw [genericLoop]
  simp only [List.headD_cons, List.tail_cons, reduceCtorEq, if_false]
  rfl

theorem dictionaryLoop_cons (fuel : ℕ) (stale char : BitVec 8) (last : Dict) (rest : Reader) :
    dictionaryLoop erange (fuel + 1) stale last (char :: rest) =
      if char = QUOTE then
        match parseString (char :: rest) with
        | .error failure => .error failure
        | .ok (key, reader) =>
            match genericLoop erange fuel 0 (readUntil COLON reader).2 with
            | .error failure => .error failure
            | .ok (value, reader) =>
                dictionaryLoop erange fuel char (.cons key value last) reader
      else if char = DICT_END then .ok (last, rest)
      else if char = SLASH then
        dictionaryLoop erange fuel char last (parseComment (char :: rest)).2
      else dictionaryLoop erange fuel char last rest := by
  rw [dictionaryLoop]
  simp only [List.headD_cons, List.tail_cons, reduceCtorEq, if_false]
  rfl

/-- Beyond the end, white space that was read last is skipped again and again. -/
theorem genericLoop_nil (fuel : ℕ) (stale : BitVec 8) :
    genericLoop erange (fuel + 1) stale [] =
      if isWhite stale then genericLoop erange fuel stale []
      else .error .OUT_OF_CONTENT_TO_READ := by
  rw [genericLoop]
  simp only [List.headD_nil, List.tail_nil, parseComment, if_true, ite_self]

theorem dictionaryLoop_nil (fuel : ℕ) (stale : BitVec 8) (last : Dict) :
    dictionaryLoop erange (fuel + 1) stale last [] =
      if stale = DICT_END then .ok (last, []) else .error .OUT_OF_CONTENT_TO_READ := by
  rw [dictionaryLoop]
  by_cases quote : stale = QUOTE
  · rw [quote]
    rfl
  · simp only [List.headD_nil, List.tail_nil, if_true, if_neg quote]

/-! ## Serializing -/

/-- What `snprintf` leaves of `\x%.2X` in a buffer of four characters -/
def escape (chr : BitVec 8) : BString :=
  let digit := fun nibble : BitVec 4 =>
    if nibble < 10 then 0x30 + nibble.setWidth 8 else 0x37 + nibble.setWidth 8
  [BACKSLASH, X, digit (chr.extractLsb' 4 4), digit (chr.extractLsb' 0 4)].take 3 ++ [0]

/-- A character that is written as it is -/
def isPlain (chr : BitVec 8) : Bool :=
  chr < 126 ∧ 31 < chr ∧ chr ≠ BACKSLASH ∧ chr ≠ QUOTE

/-- `serializeString` -/
def serializeString (string : BString) : BString :=
  QUOTE :: ((string.flatMap fun chr => if isPlain chr then [chr] else escape chr) ++ [QUOTE])

/-- The macro `PAD`; its counter is taken not to overflow. -/
def PAD (padSpaces : ℕ) : ℕ → ℕ → Option BString
  | 0, _ => none
  | fuel + 1, padCounter =>
      if 32 < padSpaces + padCounter then
        (PAD padSpaces fuel (padCounter + 32)).map fun spaces => List.replicate 32 SPACE ++ spaces
      else some (List.replicate (padSpaces - padCounter) SPACE)

/-- What is between an element and the next one, if there is one -/
def listSeparator : BList → BString
  | .nil => []
  | .cons _ _ => [COMMA, NEWLINE]

def dictSeparator : Dict → BString
  | .nil => []
  | .cons _ _ _ => [COMMA, NEWLINE]

mutual

/-- `serializeGenericWithPadding` -/
def serializeGenericWithPadding (fuel padSpaceCount : ℕ) : Object → Option BString
  | .string string => some (serializeString string)
  | .integer integer => some (ofInt integer.toInt)
  | .list list => do
      let items ← serializeItems fuel (padSpaceCount + 2) list
      let spaces ← PAD padSpaceCount fuel 0
      some ([LIST_BEGIN, NEWLINE] ++ (items ++ (NEWLINE :: (spaces ++ [LIST_END]))))
  | .dict dictionary => do
      let entries ← serializeEntries fuel (padSpaceCount + 2) dictionary
      let spaces ← PAD padSpaceCount fuel 0
      some ([DICT_BEGIN, NEWLINE] ++ (entries ++ (NEWLINE :: (spaces ++ [DICT_END]))))

/-- The loop of `serializeListWithPadding` -/
def serializeItems (fuel padSpaceCount : ℕ) : BList → Option BString
  | .nil => some []
  | .cons elem next => do
      let spaces ← PAD padSpaceCount fuel 0
      let text ← serializeGenericWithPadding fuel padSpaceCount elem
      let rest ← serializeItems fuel padSpaceCount next
      some (spaces ++ (text ++ (listSeparator next ++ rest)))

/-- The loop of `serializeDictionaryWithPadding` -/
def serializeEntries (fuel padSpaceCount : ℕ) : Dict → Option BString
  | .nil => some []
  | .cons key val next => do
      let spaces ← PAD padSpaceCount fuel 0
      let text ← serializeGenericWithPadding fuel padSpaceCount val
      let rest ← serializeEntries fuel padSpaceCount next
      some (spaces ++ (serializeString key ++ ([SPACE, COLON, SPACE] ++
        (text ++ (dictSeparator next ++ rest)))))

end

/-- `serializeDictionary` -/
def serializeDictionary (fuel : ℕ) (dictionary : Dict) : Option BString :=
  serializeGenericWithPadding fuel 0 (.dict dictionary)

/-! ## More fuel -/

/-- Where the result of `map` is not for want of fuel, neither is what it is made of. -/
theorem ne_of_map_ne {α β : Type} {parsed : Parsed α} {f : α × Reader → β × Reader}
    (fine : parsed.map f ≠ .error .outOfFuel) : parsed ≠ .error .outOfFuel := by
  rintro rfl
  exact fine rfl

mutual

theorem genericLoop_succ : ∀ (fuel : ℕ) (firstChar : BitVec 8) (reader : Reader),
    genericLoop erange fuel firstChar reader ≠ .error .outOfFuel →
      genericLoop erange (fuel + 1) firstChar reader = genericLoop erange fuel firstChar reader
  | 0, _, _, fine => absurd rfl fine
  | fuel + 1, firstChar, reader, fine => by
      rw [genericLoop] at fine ⊢
      conv_rhs => rw [genericLoop]
      split_ifs at fine ⊢ with white slash beyond digit list dict quote
      · exact genericLoop_succ fuel _ _ fine
      · rcases comment : parseComment reader with ⟨_ | failure, behind⟩
        · rw [comment] at fine
          exact genericLoop_succ fuel _ _ fine
        · rfl
      · rfl
      · rfl
      · rw [listLoop_succ fuel _ (ne_of_map_ne fine)]
      · rw [dictionaryLoop_succ fuel _ _ _ (ne_of_map_ne fine)]
      · rfl
      · rfl

theorem listLoop_succ : ∀ (fuel : ℕ) (reader : Reader),
    listLoop erange fuel reader ≠ .error .outOfFuel →
      listLoop erange (fuel + 1) reader = listLoop erange fuel reader
  | 0, _, fine => absurd rfl fine
  | _ + 1, [], _ => rfl
  | fuel + 1, nextChar :: rest, fine => by
      rw [listLoop] at fine ⊢
      conv_rhs => rw [listLoop]
      split_ifs at fine ⊢ with slash begins ends
      · rcases comment : parseComment (nextChar :: rest) with ⟨_ | failure, behind⟩
        · rw [comment] at fine
          exact listLoop_succ fuel _ fine
        · rfl
      · have elem : genericLoop erange fuel 0 (nextChar :: rest) ≠ .error .outOfFuel := by
          intro empty
          rw [empty] at fine
          exact fine rfl
        rw [genericLoop_succ fuel _ _ elem]
        rcases value : genericLoop erange fuel 0 (nextChar :: rest) with failure | ⟨element, behind⟩
        · rfl
        · rw [value] at fine
          dsimp only
          rw [listLoop_succ fuel _ (ne_of_map_ne fine)]
      · rfl
      · exact listLoop_succ fuel _ fine

theorem dictionaryLoop_succ : ∀ (fuel : ℕ) (nextChar : BitVec 8) (last : Dict) (reader : Reader),
    dictionaryLoop erange fuel nextChar last reader ≠ .error .outOfFuel →
      dictionaryLoop erange (fuel + 1) nextChar last reader =
        dictionaryLoop erange fuel nextChar last reader
  | 0, _, _, _, fine => absurd rfl fine
  | fuel + 1, nextChar, last, reader, fine => by
      rw [dictionaryLoop] at fine ⊢
      conv_rhs => rw [dictionaryLoop]
      split_ifs at fine ⊢ with quote beyond ends beyond slash
      · rfl
      · rcases string : parseString reader with failure | ⟨key, second⟩
        · rfl
        · rw [string] at fine
          dsimp only at fine ⊢
          have value : genericLoop erange fuel 0 (readUntil COLON second).2 ≠
              .error .outOfFuel := by
            intro empty
            rw [empty] at fine
            exact fine rfl
          rw [genericLoop_succ fuel _ _ value]
          rcases parsed : genericLoop erange fuel 0 (readUntil COLON second).2 with
            failure | ⟨val, third⟩
          · rfl
          · rw [parsed] at fine
            exact dictionaryLoop_succ fuel _ _ _ fine
      · rfl
      · rfl
      · exact dictionaryLoop_succ fuel _ _ _ fine
      · exact dictionaryLoop_succ fuel _ _ _ fine

end

end Cjdns.JsonBencSerializer
