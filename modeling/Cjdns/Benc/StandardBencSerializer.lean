import Cjdns.Benc.Object
import Cjdns.Util.Decimal

/-!
# The bencode serializer

`StandardBencSerializer.c` with the `ArrayReader` it reads from. A reader may look at the byte
behind its end but not read it; the parser looks for the `e` at the end of a list or a
dictionary and then skips it.

What the parser allocates is taken to be there. While it succeeds, it leaves `errno` alone.
-/

namespace Cjdns.StandardBencSerializer

open Decimal

/-- An `ArrayReader`: the bytes from its pointer on with the one behind the end, and none if the
pointer is beyond that -/
abbrev Reader := List (BitVec 8)

/-- `ArrayReader_new`, with the byte behind the end -/
def newReader (bytes : BString) (behind : BitVec 8) : Reader :=
  bytes ++ [behind]

/-- `bytesRead`, for a reader and what it has become -/
def bytesRead (start reader : Reader) : ℕ :=
  start.length - reader.length

/-- What a parser returns when it fails -/
inductive Failure where
  | OUT_OF_CONTENT_TO_READ
  | UNPARSABLE
  /-- The model stops before the program does. -/
  | outOfFuel
deriving DecidableEq

abbrev Parsed (α : Type) := Except Failure (α × Reader)

/-- `read` of one byte -/
def readByte : Reader → Parsed (BitVec 8)
  | nextChar :: next :: rest => .ok (nextChar, next :: rest)
  | _reader => .error .OUT_OF_CONTENT_TO_READ

/-- The character that begins or ends something -/
abbrev COLON : BitVec 8 := 0x3A

abbrev D : BitVec 8 := 0x64

abbrev E : BitVec 8 := 0x65

abbrev I : BitVec 8 := 0x69

abbrev L : BitVec 8 := 0x6C

abbrev MINUS : BitVec 8 := 0x2D

abbrev NUMBER_MAXLENGTH : ℕ := 21

/-! ## Parsing -/

/-- The loop of `parseString`, which reads the size -/
def sizeLoop (i : ℕ) (number : BString) : Reader → Parsed BString
  | nextChar :: next :: rest =>
      if nextChar = COLON then .ok (number, next :: rest)
      else if isDigit nextChar = false then .error .UNPARSABLE
      else if i ≥ NUMBER_MAXLENGTH then .error .UNPARSABLE
      else sizeLoop (i + 1) (number ++ [nextChar]) (next :: rest)
  | _ => .error .OUT_OF_CONTENT_TO_READ

/-- `parseString` -/
def parseString (reader : Reader) : Parsed BString :=
  match sizeLoop 0 [] reader with
  | .error failure => .error failure
  | .ok (number, reader) =>
      let length := strtoul number
      if length < reader.length then .ok (reader.take length, reader.drop length)
      else .error .OUT_OF_CONTENT_TO_READ

/-- The loop of `parseint64_t`, with the buffer behind the `i` -/
def integerLoop (i : ℕ) (buffer : BString) : Reader → Parsed BString
  | nextChar :: next :: rest =>
      if i = 0 then
        if nextChar = I then integerLoop 1 buffer (next :: rest) else .error .UNPARSABLE
      else if nextChar = E then .ok (buffer ++ [nextChar], next :: rest)
      else if i = 1 ∧ nextChar = MINUS then integerLoop (i + 1) (buffer ++ [nextChar]) (next :: rest)
      else if isDigit nextChar = false then .error .UNPARSABLE
      else if i > 21 then .error .UNPARSABLE
      else integerLoop (i + 1) (buffer ++ [nextChar]) (next :: rest)
  | _ => .error .OUT_OF_CONTENT_TO_READ

/-- `parseint64_t`, where `errno` may be `ERANGE` beforehand -/
def parseint64_t (erange : Bool) (reader : Reader) : Parsed (BitVec 64) :=
  match integerLoop 0 [] reader with
  | .error failure => .error failure
  | .ok (buffer, reader) =>
      let out := strtol buffer
      if out.number = 0 ∧ buffer.getD 0 0 ≠ 0x30 ∧
          (buffer.getD 0 0 ≠ MINUS ∨ buffer.getD 1 0 ≠ 0x30) then .error .UNPARSABLE
      else if (out.number = 2 ^ 63 - 1 ∨ out.number = -2 ^ 63) ∧ (erange || out.outOfRange) then
        .error .UNPARSABLE
      else .ok (BitVec.ofInt 64 out.number, reader)

mutual

/-- `parseGeneric` -/
def parseGeneric (erange : Bool) : ℕ → Reader → Parsed Object
  | 0, _ => .error .outOfFuel
  | fuel + 1, reader =>
      match reader with
      | [] => .error .OUT_OF_CONTENT_TO_READ
      | firstChar :: _ =>
          if isDigit firstChar then (parseString reader).map fun parsed => (.string parsed.1, parsed.2)
          else if firstChar = I then
            (parseint64_t erange reader).map fun parsed => (.integer parsed.1, parsed.2)
          else if firstChar = L then
            match readByte reader with
            | .error failure => .error failure
            | .ok (_, reader) =>
                (listLoop erange fuel reader).map fun parsed => (.list parsed.1, parsed.2)
          else if firstChar = D then
            match readByte reader with
            | .error failure => .error failure
            | .ok (_, reader) =>
                (dictionaryLoop erange fuel .nil reader).map fun parsed => (.dict parsed.1, parsed.2)
          else .error .UNPARSABLE

/-- `parseList`, behind the `l` -/
def listLoop (erange : Bool) : ℕ → Reader → Parsed BList
  | 0, _ => .error .outOfFuel
  | fuel + 1, reader =>
      match reader with
      | [] => .error .OUT_OF_CONTENT_TO_READ
      | nextChar :: rest =>
          if nextChar = E then .ok (.nil, rest)
          else
            match parseGeneric erange fuel reader with
            | .error failure => .error failure
            | .ok (element, reader) =>
                (listLoop erange fuel reader).map fun parsed => (.cons element parsed.1, parsed.2)

/-- `parseDictionary`, behind the `d`, with the entries so far, the last one first -/
def dictionaryLoop (erange : Bool) : ℕ → Dict → Reader → Parsed Dict
  | 0, _, _ => .error .outOfFuel
  | fuel + 1, lastEntryPointer, reader =>
      match reader with
      | [] => .error .OUT_OF_CONTENT_TO_READ
      | nextChar :: rest =>
          if nextChar = E then .ok (lastEntryPointer, rest)
          else
            match parseString reader with
            | .error failure => .error failure
            | .ok (key, reader) =>
                match parseGeneric erange fuel reader with
                | .error failure => .error failure
                | .ok (value, reader) =>
                    dictionaryLoop erange fuel (.cons key value lastEntryPointer) reader

end

/-- `parseDictionary` -/
def parseDictionary (erange : Bool) (reader : Reader) : Parsed Dict :=
  match readByte reader with
  | .error failure => .error failure
  | .ok (nextChar, rest) =>
      if nextChar = D then dictionaryLoop erange (2 * reader.length) .nil rest
      else .error .UNPARSABLE

/-! ## Serializing -/

/-- `serializeString` -/
def serializeString (string : BString) : BString :=
  ofInt (BitVec.ofNat 64 string.length).toInt ++ COLON :: string

/-- `serializeint64_t` -/
def serializeint64_t (integer : BitVec 64) : BString :=
  I :: (ofInt integer.toInt ++ [E])

mutual

/-- `serializeGeneric` -/
def serializeGeneric : Object → BString
  | .string bytes => serializeString bytes
  | .integer number => serializeint64_t number
  | .list list => L :: serializeItems list
  | .dict dictionary => D :: serializeEntries dictionary

/-- `serializeList`, behind the `l` -/
def serializeItems : BList → BString
  | .nil => [E]
  | .cons elem next => serializeGeneric elem ++ serializeItems next

/-- `serializeDictionary`, behind the `d` -/
def serializeEntries : Dict → BString
  | .nil => [E]
  | .cons key val next => serializeString key ++ (serializeGeneric val ++ serializeEntries next)

end

/-- `serializeDictionary` -/
def serializeDictionary (dictionary : Dict) : BString :=
  D :: serializeEntries dictionary

example : serializeDictionary (.cons [0x61] (.integer 5) .nil) =
    [0x64, 0x31, 0x3A, 0x61, 0x69, 0x35, 0x65, 0x65] := by
  decide +kernel

end Cjdns.StandardBencSerializer
